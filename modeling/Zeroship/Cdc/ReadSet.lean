import Zeroship.Base.Binary64

/-! Read sets: what a query depends on, and the changes that touch it.

A filter is normalised to a conjunction of comparisons once, when the query runs. The
comparisons are made on the text of a changed row's columns: equality on the text itself,
ranges on the doubles both sides spell. Any other filter stands for the whole collection. -/
namespace Zeroship.Cdc
open Base (Binary64 parseDouble)

inductive Number
  | int (n : Int)
  /-- A double, and the text it is printed as. -/
  | float (value : Binary64) (text : String)

inductive Value
  | null
  | bool (b : Bool)
  | number (n : Number)
  | string (s : String)
  | bytes (b : List UInt8)
  | timestampMicros (micros : Int)
  | decimal (text : String)
  | json (text : String)
  | array (items : List Value)
  | object (fields : List (String × Value))
  | masked (display : String)

/-- What a column can be compared with. -/
inductive Scalar
  | string (s : String)
  | number (n : Number)
  | bool (b : Bool)

def Value.toScalar : Value → Option Scalar
  | .string s => some (.string s)
  | .number n => some (.number n)
  | .bool b => some (.bool b)
  | _ => none

def valueToText : Scalar → String
  | .string s => s
  | .number (.int n) => toString n
  | .number (.float _ text) => text
  | .bool b => if b then "true" else "false"

def valueToF64 : Scalar → Option Binary64
  | .number (.int n) => some (.ofInt n)
  | .number (.float value _) => some value
  | .string s => parseDouble s
  | .bool _ => none

inductive PredicateOp
  | eq | gt | gte | lt | lte
deriving DecidableEq

/-- A column compared with a value. -/
structure Conjunct where
  column : String
  op : PredicateOp
  value : Scalar

/-- All of the conjuncts. -/
structure Predicate where
  all : List Conjunct

/-- The text of each column of a row. -/
abbrev Tuple := List (String × String)

/-- A range, on the doubles of both sides. -/
def PredicateOp.holds (op : PredicateOp) (a b : Binary64) : Bool :=
  match op with
  | .gt => b.lt a
  | .gte => b.le a
  | .lt => a.lt b
  | .lte => a.le b
  | .eq => false

def Conjunct.matchesText (c : Conjunct) (row : Tuple) : Bool :=
  match row.lookup c.column with
  | none => false
  | some actual =>
    match c.op with
    | .eq => valueToText c.value = actual
    | op =>
      match parseDouble actual, valueToF64 c.value with
      | some a, some b => op.holds a b
      | _, _ => false

def Predicate.matches (p : Predicate) (row : Tuple) : Bool := p.all.all fun c => c.matchesText row

/-- A collection a query read, and which of its rows; all of them if there is no predicate. -/
structure ReadSetEntry where
  collection : String
  predicate : Option Predicate

def ReadSetEntry.matches (e : ReadSetEntry) (row : Tuple) : Bool :=
  match e.predicate with
  | none => true
  | some p => p.matches row

inductive MaskKind
  | full | last4 | first4 | email | name | dateYear | dateDecade | none

def MaskKind.fromSql (s : String) : Option MaskKind :=
  if s = "full" then some .full
  else if s = "last4" then some .last4
  else if s = "first4" then some .first4
  else if s = "email" then some .email
  else if s = "name" then some .name
  else if s = "dateYear" ∨ s = "date-year" then some .dateYear
  else if s = "dateDecade" ∨ s = "date-decade" then some .dateDecade
  else if s = "none" then some .none
  else Option.none

/-- A star for each letter or digit that is not kept, which is told by its number. -/
def starOut (keep : Nat → Bool) : Nat → List Char → List Char
  | _, [] => []
  | seen, c :: rest =>
    if c.isAlphanum then (if keep seen then c else '*') :: starOut keep (seen + 1) rest
    else c :: starOut keep seen rest

variable (text : List Char)

def maskLastN (n : Nat) : List Char :=
  starOut (fun seen => !decide (seen < text.countP Char.isAlphanum - n)) 0 text

def maskFirstN (n : Nat) : List Char := starOut (fun seen => seen < n) 0 text

def stars : List Char := ['*', '*', '*']

def maskEmail : List Char :=
  match text.span (· ≠ '@') with
  | (_, []) => if text = [] then [] else stars
  | ([], _) => stars
  | (first :: _, domain) => first :: stars ++ domain

/-- The white space of Unicode. -/
def isWhitespace (c : Char) : Bool :=
  (9 ≤ c.toNat && c.toNat ≤ 13) || (8192 ≤ c.toNat && c.toNat ≤ 8202) ||
    [32, 133, 160, 5760, 8232, 8233, 8239, 8287, 12288].contains c.toNat

/-- The initial of each word, and stars for the last. -/
def maskInitials : List (List Char) → List Char
  | [] => []
  | [last] => last.take 1 ++ stars
  | word :: rest => word.take 1 ++ ['.', ' '] ++ maskInitials rest

def maskName : List Char := maskInitials ((text.splitOnP isWhitespace).filter (· ≠ []))

/-- The start of a date that is at least ten bytes long, if it looks like one. -/
def maskDate (fourth : Char → Bool) (shown : List Char → List Char) (text : List Char) : List Char :=
  match text with
  | [] => []
  | a :: b :: c :: d :: '-' :: _ =>
    if 10 ≤ (String.ofList text).utf8ByteSize && a.isDigit && b.isDigit && c.isDigit && fourth d
    then shown [a, b, c, d] ++ ['-', '*', '*', '-', '*', '*'] else stars
  | _ => stars

def maskDateYear : List Char := maskDate Char.isDigit id text

def maskDateDecade : List Char :=
  maskDate (fun d => d.isDigit || d = '?') (fun year => year.take 3 ++ ['?']) text

def applyMaskKind (kind : MaskKind) (plaintext : String) : String :=
  match kind with
  | .full => "***"
  | .last4 => .ofList (maskLastN plaintext.toList 4)
  | .first4 => .ofList (maskFirstN plaintext.toList 4)
  | .email => .ofList (maskEmail plaintext.toList)
  | .name => .ofList (maskName plaintext.toList)
  | .dateYear => .ofList (maskDateYear plaintext.toList)
  | .dateDecade => .ofList (maskDateDecade plaintext.toList)
  | .none => plaintext

inductive LogicalType
  | text | integer | bigInt | number | boolean | bytes | timestamp | calendarDate | time | json
  | object | array | union | vector | geoPoint | enum | literal
deriving DecidableEq

/-- The type of a column and the kind of its mask. -/
structure ColumnSchema where
  logicalType : LogicalType
  mask : Option String

abbrev FieldMap := List (String × ColumnSchema)

variable (schema : FieldMap)

def isTimestampColumn (column : String) : Bool :=
  (schema.lookup column).any fun d => d.logicalType = .timestamp

/-- No mask, and the mask `none`, leave the column as it is. -/
def effectiveMask (field : ColumnSchema) : Option String := field.mask.filter fun kind => kind ≠ "none"

def maskKindForColumn (column : String) : Option MaskKind := do
  let field ← schema.lookup column
  let kind ← effectiveMask field
  MaskKind.fromSql kind

/-- Mask against mask, where the column holds its mask. -/
def lowerOperand (maskKind : Option MaskKind) (value : Scalar) : Scalar :=
  match maskKind with
  | none => value
  | some kind => .string (applyMaskKind kind (valueToText value))

def predicateOp (op : String) : Option PredicateOp :=
  if op = "$eq" then some .eq
  else if op = "$gt" then some .gt
  else if op = "$gte" then some .gte
  else if op = "$lt" then some .lt
  else if op = "$lte" then some .lte
  else none

/-- One operator of a column. A range of masks is no range of the values. -/
def normaliseOperator (key : String) (maskKind : Option MaskKind) (entry : String × Value) : Option Conjunct := do
  let op ← predicateOp entry.1
  let value ← entry.2.toScalar
  if maskKind.isSome && op ≠ .eq then none else some ⟨key, op, lowerOperand maskKind value⟩

/-- One field of a filter: a bare value, or operators. -/
def normaliseField (field : String × Value) : Option (List Conjunct) :=
  if field.1.toList.head? = some '$' then none
  else if isTimestampColumn schema field.1 then none
  else
    let maskKind := maskKindForColumn schema field.1
    match field.2 with
    | .object ops => ops.mapM (normaliseOperator field.1 maskKind)
    | value => value.toScalar.map fun v => [⟨field.1, .eq, lowerOperand maskKind v⟩]

/-- The conjunction a filter stands for, if it has that form. -/
def normaliseFilter (filter : Value) (schema : FieldMap) : Option Predicate :=
  match filter with
  | .object fields => do
    let conjuncts ← fields.mapM (normaliseField schema)
    some ⟨conjuncts.flatten⟩
  | _ => none

/-- What is recorded of a read. -/
def readSetEntry (collection : String) (filter : Value) (schema : FieldMap) : ReadSetEntry :=
  ⟨collection, normaliseFilter filter schema⟩

end Zeroship.Cdc
