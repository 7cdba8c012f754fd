import CAbi.CType
import CAbi.Spelling.Token
/-!
# Grammar — from lexemes to a type

    spelling = volatile* base (* volatile*)*
    base     = [unsigned | signed] integer | unsigned | signed | float | double | long double | void
             | (struct | union) word | name
    integer  = char | short [int] | int | long [int] | long long [int] | _Addr | _Int64 | _Reg

Reading is by lexemes alone.  A reader that cannot go on says what it was looking for and hands back the lexemes it
did not consume; the first of them, or the end, is where the fault lies, and only the caller turns that into a column.
-/
namespace CAbi
namespace Spelling

inductive Expected where
  | typeName
  | integerAfterSign
  | aggregateTag
  | endOfSpelling
  deriving DecidableEq, Repr

def Expected.text : Expected → String
  | .typeName => "type name"
  | .integerAfterSign => "integer type after sign keyword"
  | .aggregateTag => "aggregate tag"
  | .endOfSpelling => "end of spelling"

/-- **Why reading stopped**, and the lexemes it stopped in front of. -/
structure Stop where
  expected : Expected
  rest : List Lexeme
  deriving DecidableEq, Repr

/-- Any number of `volatile`, and whether there was one. -/
def takeVolatiles : List Lexeme → Bool × List Lexeme
  | .keyword .volatile :: ls => (true, (takeVolatiles ls).2)
  | ls => (false, ls)

def takeSign : List Lexeme → Sign × List Lexeme
  | .keyword .unsigned :: ls => (.unsigned, ls)
  | .keyword .signed :: ls => (.signed, ls)
  | ls => (.plain, ls)

/-- The optional `int` after `short` and `long`. -/
def skipInt : List Lexeme → List Lexeme
  | .keyword .int :: ls => ls
  | ls => ls

/-- **The kinds that may follow a sign keyword.** -/
def takeInteger? : List Lexeme → Option (ScalarKind × List Lexeme)
  | .keyword .char :: ls => some (.char, ls)
  | .keyword .short :: ls => some (.short, skipInt ls)
  | .keyword .int :: ls => some (.int, ls)
  | .keyword .long :: .keyword .long :: ls => some (.longLong, skipInt ls)
  | .keyword .long :: ls => some (.long, skipInt ls)
  | .keyword .addr :: ls => some (.addr, ls)
  | .keyword .int64 :: ls => some (.int64, ls)
  | .keyword .reg :: ls => some (.reg, ls)
  | _ => none

def builtinMark : List Char := "__builtin_".toList

/-- **A word without a meaning of its own**: a compiler type by its mark, else a name of the table. -/
def baseOfName (name : String) : Base :=
  if builtinMark.isPrefixOf name.toList then .builtin name else .named name

def takeTag (kind : AggregateKind) : List Lexeme → Except Stop (Base × List Lexeme)
  | .keyword k :: ls => .ok (.tagged kind k.text, ls)
  | .name s :: ls => .ok (.tagged kind s, ls)
  | ls => .error ⟨.aggregateTag, ls⟩

/-- **A base without a sign keyword that is no integer.** -/
def takeOther : List Lexeme → Except Stop (Base × List Lexeme)
  | .keyword .float :: ls => .ok (.scalar (.plain .float), ls)
  | .keyword .double :: ls => .ok (.scalar (.plain .double), ls)
  | .keyword .void :: ls => .ok (.void, ls)
  | .keyword .struct :: ls => takeTag .struct ls
  | .keyword .union :: ls => takeTag .union ls
  | .name s :: ls => .ok (baseOfName s, ls)
  | ls => .error ⟨.typeName, ls⟩

def takePlain : List Lexeme → Except Stop (Base × List Lexeme)
  | .keyword .long :: .keyword .double :: ls => .ok (.scalar (.plain .longDouble), ls)
  | ls =>
    match takeInteger? ls with
    | some (kind, ls) => .ok (.scalar (.plain kind), ls)
    | none => takeOther ls

/-- The keywords that cannot follow a sign keyword, although they begin a type. -/
def refusesSign : List Lexeme → Bool
  | .keyword .float :: _ => true
  | .keyword .double :: _ => true
  | .keyword .void :: _ => true
  | .keyword .struct :: _ => true
  | .keyword .union :: _ => true
  | _ => false

/-- **A base after its sign keyword**: an integer kind, or nothing, which means `int`. -/
def takeSigned (sign : Sign) (ls : List Lexeme) : Except Stop (Base × List Lexeme) :=
  match takeInteger? ls with
  | some (kind, ls) => .ok (.scalar ⟨kind, sign, false⟩, ls)
  | none => if refusesSign ls then .error ⟨.integerAfterSign, ls⟩ else .ok (.scalar (.bare sign), ls)

def takeBase (ls : List Lexeme) : Except Stop (Base × List Lexeme) :=
  match takeSign ls with
  | (.plain, ls) => takePlain ls
  | (sign, ls) => takeSigned sign ls

/-- The pointer levels from one whose star is read; `isVolatile` is what its qualifiers said so far. -/
def takeLevels (isVolatile : Bool) : List Lexeme → List Bool × List Lexeme
  | .keyword .volatile :: ls => takeLevels true ls
  | .star :: ls =>
    let above := takeLevels false ls
    (isVolatile :: above.1, above.2)
  | ls => ([isVolatile], ls)

def takePointers : List Lexeme → List Bool × List Lexeme
  | .star :: ls => takeLevels false ls
  | ls => ([], ls)

/-- **The type a list of lexemes spells.** -/
def readType (ls : List Lexeme) : Except Stop CType :=
  match takeBase (takeVolatiles ls).2 with
  | .error stop => .error stop
  | .ok (base, ls') =>
    match takePointers ls' with
    | (pointers, []) => .ok ⟨base, (takeVolatiles ls).1, pointers⟩
    | (_, ls'') => .error ⟨.endOfSpelling, ls''⟩

end Spelling

/-- **Why a spelling is refused.**  A missing `found` is the end of the text. -/
inductive SpellingError where
  | badChar (bad : Spelling.BadChar) (spelling : String)
  | unexpected (expected : Spelling.Expected) (found : Option Spelling.Lexeme) (column : Nat) (spelling : String)
  deriving DecidableEq, Repr

namespace SpellingError

def foundText : Option Spelling.Lexeme → String
  | none => "end of spelling"
  | some l => "'" ++ l.text ++ "'"

def message : SpellingError → String
  | .badChar b spelling =>
    "unexpected character '" ++ b.ch.toString ++ "' at column " ++ b.column.repr ++ " in '" ++ spelling ++ "'"
  | .unexpected expected found column spelling =>
    "expected " ++ expected.text ++ ", found " ++ foundText found ++ " at column " ++ column.repr ++ " in '" ++
      spelling ++ "'"

end SpellingError

/-- **The type a text spells.**  The whole text must be tokens before the grammar is asked. -/
def CType.ofSpelling (src : String) : Except SpellingError CType :=
  match Spelling.tokenize src with
  | .error bad => .error (.badChar bad src)
  | .ok tokens =>
    match Spelling.readType (tokens.list.map (·.lexeme)) with
    | .ok type => .ok type
    | .error stop =>
      .error (.unexpected stop.expected stop.rest.head? (tokens.columnOfLast stop.rest.length) src)

end CAbi
