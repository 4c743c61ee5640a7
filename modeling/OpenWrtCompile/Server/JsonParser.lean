import OpenWrtCompile.Base.Block
import OpenWrtCompile.Base.Json
import OpenWrtCompile.Http.Header
import Mathlib.Data.Int.Bitwise

/-!
# The JSON parser

`shadowsocksr-libev/src/server/json.c`: `json_parse_ex` with the settings of `read_jconf`, which allow
no comments and set no limit to the memory. The loop runs over the text twice. The first time it counts
what each value needs, the second time it allocates and fills the blocks. A byte of the loop does the
same in both passes but for what it writes, so the loop is a step that says what is written, and each
pass has a memory of its own that is written.
-/

namespace OpenWrtCompile.Server.JsonParser
open OpenWrtCompile.Base

/-! ## Types and errors -/

/-- `json_type`. -/
inductive JsonType where
  | object
  | array
  | integer
  | double
  | string
  | boolean
  | null
  deriving DecidableEq, Repr

/-- The errors of the loop, with the byte they name. -/
inductive Fault where
  | eofInString
  | invalidCharacter (b : UInt8)
  | tooLong
  | trailingGarbage (b : UInt8)
  | unexpectedBracket
  | expectedComma (b : UInt8)
  | expectedColon (b : UInt8)
  | unknownValue
  | unexpectedValue (b : UInt8)
  | expectedCommaBeforeName
  | unexpectedInObject (b : UInt8)
  | zeroBefore (b : UInt8)
  | digitBeforePoint
  | digitAfterPoint
  | digitAfterE
  deriving DecidableEq, Repr

/-- `%d`. -/
def decimalInt (n : Int) : Bytes :=
  if n < 0 then 0x2D :: Http.decimal n.natAbs else Http.decimal n.natAbs

/-- The text of an error; a byte 0 ends it. -/
def Fault.text (line : Nat) (off : Int) (f : Fault) : Bytes :=
  let at' := Http.decimal line ++ 0x3A :: decimalInt off
  let front (message : Bytes) := at' ++ ascii ": " ++ message
  let behind (message : Bytes) := message ++ ascii " (at " ++ at' ++ ascii ")"
  cString (match f with
    | .eofInString => behind (ascii "Unexpected EOF in string")
    | .invalidCharacter b => behind (ascii "Invalid character value `" ++ b :: ascii "`")
    | .tooLong => front (ascii "Too long (caught overflow)")
    | .trailingGarbage b => front (ascii "Trailing garbage: `" ++ b :: ascii "`")
    | .unexpectedBracket => front (ascii "Unexpected ]")
    | .expectedComma b => front (ascii "Expected , before " ++ [b])
    | .expectedColon b => front (ascii "Expected : before " ++ [b])
    | .unknownValue => front (ascii "Unknown value")
    | .unexpectedValue b => front (ascii "Unexpected " ++ b :: ascii " when seeking value")
    | .expectedCommaBeforeName => front (ascii "Expected , before \"")
    | .unexpectedInObject b => front (ascii "Unexpected `" ++ b :: ascii "` in object")
    | .zeroBefore b => front (ascii "Unexpected `0` before `" ++ b :: ascii "`")
    | .digitBeforePoint => front (ascii "Expected digit before `.`")
    | .digitAfterPoint => front (ascii "Expected digit after `.`")
    | .digitAfterE => front (ascii "Expected digit after `e`")) 0

/-! ## The loop -/

/-- What a byte of the text does to the memory. -/
inductive Action where
  /-- `new_value`. -/
  | newValue (type : JsonType)
  /-- `top->u.boolean = 1`. -/
  | setTrue
  /-- `string = top->u.string.ptr`. -/
  | beginString
  /-- `string = top->_reserved.object_mem`. -/
  | beginName
  /-- `string[at] = b`, the first pass only counts. -/
  | add (k : Nat) (b : UInt8)
  /-- The end of a string with its length. -/
  | endString (length : Nat)
  /-- The end of a name with its length. -/
  | endName (length : Nat)
  /-- `top->u.integer = (top->u.integer * 10) + digit`. -/
  | digit (d : Nat)
  /-- `top->type = json_double`. -/
  | toDouble
  /-- `top->u.integer = -top->u.integer`. -/
  | negate
  /-- `top` is the next value of its parent, `top = top->parent`. -/
  | attach
  deriving DecidableEq, Repr

/-- What the loop reads of the memory: `top->type` and `top->parent->type`. -/
structure View where
  top : Option JsonType
  parent : Option JsonType

/-- Behind `new_value`. -/
def View.push (v : View) (type : JsonType) : View := ⟨some type, v.top⟩

/-- `flag_num_negative`, `flag_num_zero`, `flag_num_e`, `flag_num_e_got_sign` and `num_digits`. -/
structure Num where
  negative : Bool
  zero : Bool
  e : Bool
  eGotSign : Bool
  digits : Nat
  deriving DecidableEq, Repr

/-- The variables of the loop: the text from `i` on, `i`, `cur_line`, `cur_line_begin`, the flags that
are kept from one byte to the next, those of a number, and `string_length`. -/
structure Control where
  rest : Bytes
  i : Nat
  curLine : Nat
  curLineBegin : Nat
  needComma : Bool
  seekValue : Bool
  escaped : Bool
  string : Bool
  needColon : Bool
  done : Bool
  num : Num
  stringLength : Nat
  deriving DecidableEq, Repr

/-- What a byte does: the loop goes on, ends, or fails at a line and an offset. It is `undefined` where
`top` is NULL. -/
inductive Step where
  | go (c : Control) (actions : List Action)
  | finished
  | failed (f : Fault) (line : Nat) (off : Int)
  | undefined

namespace Control

/-- The start of a pass. -/
def start (json : Bytes) : Control :=
  ⟨json, 0, 1, 0, false, true, false, false, false, false, ⟨false, false, false, false, 0⟩, 0⟩

variable (c : Control)

/-- `i += k`. -/
def skip (k : Nat) : Control := { c with rest := c.rest.drop k, i := c.i + k }

/-- The loop goes on behind `i += k`. -/
def advance (k : Nat) (actions : List Action) : Step := .go (c.skip k) actions

/-- `goto e_failed` behind `i += k`. -/
def fail (f : Fault) (k : Nat) : Step := .failed f c.curLine (c.i + k - c.curLineBegin)

/-- The case of a blank. -/
def blank (b : UInt8) : Step :=
  if b = 0x0A then { c with curLine := c.curLine + 1, curLineBegin := c.i }.advance 1 []
  else c.advance 1 []

/-- `flag_next`: the value at `top` is complete. -/
def next (v : View) (actions : List Action) : Step :=
  match v.parent with
  | none => .go { c with needComma := true, done := true } actions
  | some type =>
    .go { c with needComma := true, seekValue := c.seekValue || type = .array } (actions ++ [.attach])

end Control

/-- `state.uint_max`. -/
def uintMax : Nat := 2 ^ 32 - 1 - 8

/-- `hex_value`, without the value for a byte that is no digit. -/
def hexValue (c : UInt8) : Option UInt8 :=
  if isJsonDigit c then some (c - 0x30)
  else if c = 0x61 ∨ c = 0x41 then some 0x0A
  else if c = 0x62 ∨ c = 0x42 then some 0x0B
  else if c = 0x63 ∨ c = 0x43 then some 0x0C
  else if c = 0x64 ∨ c = 0x44 then some 0x0D
  else if c = 0x65 ∨ c = 0x45 then some 0x0E
  else if c = 0x66 ∨ c = 0x46 then some 0x0F
  else none

/-- The bytes of `\u`, `b1` being the high byte of the four digits. -/
def unicodeBytes (b1 b2 : UInt8) : Bytes :=
  let uchar := b1.toNat * 256 + b2.toNat
  if b1 = 0 ∧ b2 ≤ 0x7F then [b2]
  else if uchar ≤ 0x7FF then
    [(0xC0 : UInt8) ||| ((b2 &&& 0xC0) >>> 6) ||| ((b1 &&& 0x7) <<< 2), (0x80 : UInt8) ||| (b2 &&& 0x3F)]
  else
    [(0xE0 : UInt8) ||| ((b1 &&& 0xF0) >>> 4),
      (0x80 : UInt8) ||| ((b1 &&& 0xF) <<< 2) ||| ((b2 &&& 0xC0) >>> 6),
      (0x80 : UInt8) ||| (b2 &&& 0x3F)]

/-- `string_add` of each byte, behind `i += k`. -/
def addBytes (c : Control) (k : Nat) (bytes : Bytes) : Step :=
  { c with stringLength := c.stringLength + bytes.length }.advance k
    (bytes.mapIdx fun j b ↦ .add (c.stringLength + j) b)

/-- The four digits of `\u`; the text from `i` on starts with the `u`. -/
def unicodeStep (c : Control) : Step :=
  let digit (k : Nat) := hexValue (c.rest[k]?.getD 0)
  if c.rest.length < 4 then c.fail (.invalidCharacter 0x75) 0
  else
    match digit 1, digit 2, digit 3, digit 4 with
    | none, _, _, _ => c.fail (.invalidCharacter 0x75) 1
    | _, none, _, _ => c.fail (.invalidCharacter 0x75) 2
    | _, _, none, _ => c.fail (.invalidCharacter 0x75) 3
    | _, _, _, none => c.fail (.invalidCharacter 0x75) 4
    | some d1, some d2, some d3, some d4 => addBytes c 5 (unicodeBytes (d1 * 16 + d2) (d3 * 16 + d4))

/-- A byte behind a backslash. -/
def escapedStep (c : Control) (b : UInt8) : Step :=
  if b = 0x62 then addBytes c 1 [0x08]
  else if b = 0x66 then addBytes c 1 [0x0C]
  else if b = 0x6E then addBytes c 1 [0x0A]
  else if b = 0x72 then addBytes c 1 [0x0D]
  else if b = 0x74 then addBytes c 1 [0x09]
  else if b = 0x75 then unicodeStep c
  else addBytes c 1 [b]

/-- A byte with `flag_string`. A string is a value or a name. -/
def stringStep (v : View) (c : Control) (b : UInt8) : Step :=
  if b = 0 then c.fail .eofInString 0
  else if uintMax < c.stringLength then c.fail .tooLong 0
  else if c.escaped then escapedStep { c with escaped := false } b
  else if b = 0x5C then { c with escaped := true }.advance 1 []
  else if b = 0x22 then
    match v.top with
    | some .string => ({ c with string := false }.skip 1).next v [.endString c.stringLength]
    | some .object =>
      { c with string := false, seekValue := true, needColon := true }.advance 1
        [.endName c.stringLength]
    | _ => .undefined
  else addBytes c 1 [b]

/-- A byte with `flag_done`. -/
def doneStep (c : Control) (b : UInt8) : Step :=
  if b = 0 then .finished
  else if isJsonBlank b then c.blank b
  else c.fail (.trailingGarbage b) 0

/-- How far the text is read until it differs from a word. -/
def mismatch : Bytes → Bytes → Option Nat
  | [], _ => none
  | w :: ws, t => if t.headD 0 ≠ w then some 1 else (mismatch ws t.tail).map (· + 1)

/-- `true`, `false` or `null` behind its first byte. -/
def wordStep (v : View) (c : Control) (word : Bytes) (type : JsonType) (actions : List Action) : Step :=
  if c.rest.length < word.length then c.fail .unknownValue 0
  else
    match mismatch word c.rest.tail with
    | some k => c.fail .unknownValue k
    | none => (c.skip (word.length + 1)).next (v.push type) (.newValue type :: actions)

/-- The first byte of a number. The second pass skips the number, the first one reads it again unless
it is a sign. -/
def numberStart (first : Bool) (v : View) (c : Control) (b : UInt8) : Step :=
  if first then
    if b ≠ 0x2D then .go { c with num := ⟨false, false, false, false, 0⟩ } [.newValue .integer]
    else { c with num := ⟨true, false, false, false, 0⟩ }.advance 1 [.newValue .integer]
  else
    (c.skip (c.rest.takeWhile isNumberByte).length).next (v.push .integer) [.newValue .integer]

/-- The first byte of a value, `flag_seek_value` being cleared. -/
def valueStep (first : Bool) (v : View) (c : Control) (b : UInt8) : Step :=
  if b = 0x7B then c.advance 1 [.newValue .object]
  else if b = 0x5B then { c with seekValue := true }.advance 1 [.newValue .array]
  else if b = 0x22 then
    { c with string := true, stringLength := 0 }.advance 1 [.newValue .string, .beginString]
  else if b = 0x74 then wordStep v c (ascii "rue") .boolean [.setTrue]
  else if b = 0x66 then wordStep v c (ascii "alse") .boolean []
  else if b = 0x6E then wordStep v c (ascii "ull") .null []
  else if isJsonDigit b ∨ b = 0x2D then numberStart first v c b
  else c.fail (.unexpectedValue b) 0

/-- A byte with `flag_seek_value`. -/
def seekStep (first : Bool) (v : View) (c : Control) (b : UInt8) : Step :=
  if isJsonBlank b then c.blank b
  else if b = 0x5D then
    match v.top with
    | none => .undefined
    | some .array => ({ c with needComma := false, seekValue := false }.skip 1).next v []
    | some _ => c.fail .unexpectedBracket 0
  else if c.needComma then
    if b = 0x2C then { c with needComma := false }.advance 1 []
    else c.fail (.expectedComma b) 0
  else if c.needColon then
    if b = 0x3A then { c with needColon := false }.advance 1 []
    else c.fail (.expectedColon b) 0
  else valueStep first v { c with seekValue := false } b

/-- A byte in an object. -/
def objectStep (v : View) (c : Control) (b : UInt8) : Step :=
  if isJsonBlank b then c.blank b
  else if b = 0x22 then
    if c.needComma then c.fail .expectedCommaBeforeName 0
    else { c with string := true, stringLength := 0 }.advance 1 [.beginName]
  else if b = 0x7D then ({ c with needComma := false }.skip 1).next v []
  else if b = 0x2C ∧ c.needComma then { c with needComma := false }.advance 1 []
  else c.fail (.unexpectedInObject b) 0

/-- The end of a number: its byte is read again. -/
def numberEnd (v : View) (c : Control) (type : JsonType) : Step :=
  c.next v (if c.num.negative ∧ type = .integer then [.negate] else [])

/-- The flags of a number are changed, and its byte is taken. -/
def Control.count (c : Control) (num : Num) (actions : List Action) : Step :=
  { c with num }.advance 1 actions

/-- A digit of a number. The values of doubles are left out. -/
def digitStep (c : Control) (type : JsonType) (b : UInt8) : Step :=
  let num := { c.num with digits := c.num.digits + 1 }
  if num.e then c.count { num with eGotSign := true } []
  else if type = .integer then
    if num.zero then c.fail (.zeroBefore b) 0
    else c.count { num with zero := num.digits = 1 ∧ b = 0x30 } [.digit (b.toNat - 0x30)]
  else c.count num []

/-- A byte of a number, or the one behind it. -/
def numberStep (v : View) (c : Control) (type : JsonType) (b : UInt8) : Step :=
  if isJsonDigit b then digitStep c type b
  else if (b = 0x2B ∨ b = 0x2D) ∧ c.num.e ∧ ¬ c.num.eGotSign then
    c.count { c.num with eGotSign := true } []
  else if b = 0x2E ∧ type = .integer then
    if c.num.digits = 0 then c.fail .digitBeforePoint 0
    else c.count { c.num with digits := 0 } [.toDouble]
  else if c.num.e then
    if c.num.digits = 0 then c.fail .digitAfterE 0 else numberEnd v c type
  else if type = .double ∧ c.num.digits = 0 then c.fail .digitAfterPoint 0
  else if b = 0x65 ∨ b = 0x45 then
    c.count { c.num with e := true, digits := 0, zero := false } [.toDouble]
  else numberEnd v c type

/-- One byte of the loop; behind the text it is 0. -/
def step (first : Bool) (v : View) (c : Control) : Step :=
  let b := c.rest.headD 0
  if c.string then stringStep v c b
  else if c.done then doneStep c b
  else if c.seekValue then seekStep first v c b
  else
    match v.top with
    | some .object => objectStep v c b
    | some .integer => numberStep v c .integer b
    | some .double => numberStep v c .double b
    | _ => .undefined

/-! ## Memories -/

/-- What an action leaves, or that it is refused with the error for long texts, or undefined. -/
inductive Reply (M : Type) where
  | ok (m : M)
  | tooLong
  | undefined

/-- A memory that the loop writes. -/
structure Memory (M : Type) where
  view : M → View
  act : Action → M → Reply M

/-- The actions of a byte, one after the other. -/
def Memory.acts {M : Type} (mem : Memory M) : List Action → M → Reply M
  | [], m => .ok m
  | a :: as, m =>
    match mem.act a m with
    | .ok m => mem.acts as m
    | .tooLong => .tooLong
    | .undefined => .undefined

/-- What a pass leaves: its memory, an error, or nothing that is defined. -/
inductive Result (M : Type) where
  | parsed (m : M)
  | failed (f : Fault) (line : Nat) (off : Int)
  | undefined
  | outOfFuel
  deriving DecidableEq

/-- The loop of a pass. An error of an action names the byte that the loop is at. -/
def loop {M : Type} (mem : Memory M) (first : Bool) : Nat → Control → M → Result M
  | 0, _, _ => .outOfFuel
  | fuel + 1, c, m =>
    match step first (mem.view m) c with
    | .finished => .parsed m
    | .failed f line off => .failed f line off
    | .undefined => .undefined
    | .go c actions =>
      match mem.acts actions m with
      | .ok m => loop mem first fuel c m
      | .tooLong => .failed .tooLong c.curLine (c.i - 1 - c.curLineBegin)
      | .undefined => .undefined

/-- A text of `n` bytes needs three passes of the loop for a byte at most. -/
def fuelFor (n : Nat) : Nat := 3 * (n + 1)

/-- The type at an index. -/
def typeAt {V : Type} (type : V → JsonType) (values : List V) (k : Option Nat) : Option JsonType :=
  (k.bind (values[·]?)).map type

/-- `json_int_t`. -/
def wrap (n : Int) : Int := Int.bmod n (2 ^ 64)

/-- `json_value` in the first pass: `u.array.length`, which is `u.object.length` and `u.string.length`
as well, the bytes of the names that are counted in `u.object.values`, `u.integer` and `u.boolean`. -/
structure Counted where
  type : JsonType
  length : Nat
  names : Nat
  integer : Int
  boolean : Bool
  deriving DecidableEq, Repr

/-- `calloc`. -/
def Counted.zero (type : JsonType) : Counted := ⟨type, 0, 0, 0, false⟩

/-- `++top->parent->u.array.length`. -/
def Counted.attach (v : Counted) : Counted := { v with length := v.length + 1 }

/-- The first pass: the values in the order in which they are allocated, which is the list at
`_reserved.next_alloc`, and the indices of `top`, `top->parent` and so on. -/
structure FirstPass where
  values : List Counted
  path : List Nat
  deriving DecidableEq, Repr

/-- The value at `top`. -/
def FirstPass.modifyTop (m : FirstPass) (f : Counted → Counted) : Reply FirstPass :=
  match m.path with
  | [] => .undefined
  | k :: _ => .ok { m with values := m.values.modify k f }

/-- The first pass counts. -/
def firstPass : Memory FirstPass where
  view m := ⟨typeAt Counted.type m.values m.path[0]?, typeAt Counted.type m.values m.path[1]?⟩
  act a m :=
    match a with
    | .newValue type => .ok ⟨m.values ++ [.zero type], m.values.length :: m.path⟩
    | .setTrue => m.modifyTop fun v ↦ { v with boolean := true }
    | .beginString | .beginName | .add _ _ => .ok m
    | .endString length => m.modifyTop fun v ↦ { v with length }
    | .endName length => m.modifyTop fun v ↦ { v with names := v.names + (length + 1) }
    | .digit d => m.modifyTop fun v ↦ { v with integer := wrap (v.integer * 10 + d) }
    | .toDouble => m.modifyTop fun v ↦ { v with type := .double }
    | .negate => m.modifyTop fun v ↦ { v with integer := wrap (-v.integer) }
    | .attach =>
      match m.path with
      | _ :: p :: path =>
        if uintMax < (m.values[p]?.map (·.length + 1)).getD 0 then .tooLong
        else .ok ⟨m.values.modify p Counted.attach, p :: path⟩
      | _ => .undefined

/-- A member of `u.object.values`: the offset of its name in the block behind the members, the length
of the name, and the index of the value once it is written. -/
structure Member where
  name : Nat
  nameLength : Nat
  value : Option Nat
  deriving DecidableEq, Repr

/-- `json_value` in the second pass, with the blocks it points to; of the one block of an object the
members stand in front of the names. `objectMem` is the offset of `_reserved.object_mem`. -/
structure Value where
  type : JsonType
  length : Nat
  integer : Int
  boolean : Bool
  string : Block UInt8
  items : Block Nat
  members : Block Member
  names : Block UInt8
  objectMem : Nat
  deriving DecidableEq, Repr

/-- `new_value` of the second pass for a value that was counted; `values_size` is an `int`. -/
def Counted.alloc (v : Counted) : Option Value :=
  match v.type with
  | .array => some ⟨.array, 0, v.integer, v.boolean, [], .fresh Nat v.length, [], [], 0⟩
  | .object =>
    if 24 * v.length < 2 ^ 31 then
      some ⟨.object, 0, v.integer, v.boolean, [], [], .fresh Member v.length, .fresh UInt8 v.names, 0⟩
    else none
  | .string => some ⟨.string, 0, v.integer, v.boolean, .fresh UInt8 (v.length + 1), [], [], [], 0⟩
  | _ => some ⟨v.type, v.length, v.integer, v.boolean, [], [], [], [], 0⟩

/-- Where `string` points to. -/
inductive Pointer where
  | string (k : Nat)
  | names (k off : Nat)
  deriving DecidableEq, Repr

/-- The second pass: what is left of the list of values, the values that have blocks, the indices of
`top`, `top->parent` and so on, and `string`. -/
structure SecondPass where
  chain : List Counted
  values : List Value
  path : List Nat
  string : Option Pointer
  deriving DecidableEq, Repr

namespace SecondPass

/-- A value is changed. -/
def modify (m : SecondPass) (k : Nat) (f : Value → Option Value) : Reply SecondPass :=
  match (m.values[k]?).bind f with
  | none => .undefined
  | some v => .ok { m with values := m.values.set k v }

/-- The value at `top` is changed. -/
def modifyTop (m : SecondPass) (f : Value → Option Value) : Reply SecondPass :=
  match m.path with
  | [] => .undefined
  | k :: _ => m.modify k f

/-- `string[at] = b`. -/
def put (m : SecondPass) (k : Nat) (b : UInt8) : Reply SecondPass :=
  match m.string with
  | none => .undefined
  | some (.string j) => m.modify j fun v ↦ (v.string.write k b).map ({ v with string := · })
  | some (.names j off) => m.modify j fun v ↦ (v.names.write (off + k) b).map ({ v with names := · })

/-- Where `top` has its strings. -/
def point (m : SecondPass) (pointer : Nat → Value → Pointer) : Reply SecondPass :=
  match m.path with
  | [] => .undefined
  | k :: _ =>
    match m.values[k]? with
    | none => .undefined
    | some v => .ok { m with string := some (pointer k v) }

end SecondPass

/-- The name of the next member. -/
def Value.setName (v : Value) (nameLength : Nat) : Option Value :=
  (v.members.write v.length ⟨v.objectMem, nameLength, none⟩).map fun members ↦
    { v with members, objectMem := v.objectMem + (nameLength + 1) }

/-- A value is the next one of its parent. -/
def Value.attach (v : Value) (k : Nat) : Option Value :=
  match v.type with
  | .object =>
    match v.members[v.length]? with
    | some (some m) =>
      (v.members.write v.length { m with value := some k }).map fun members ↦
        { v with members, length := v.length + 1 }
    | _ => none
  | .array => (v.items.write v.length k).map fun items ↦ { v with items, length := v.length + 1 }
  | _ => some { v with length := v.length + 1 }

/-- The second pass fills the blocks. -/
def secondPass : Memory SecondPass where
  view m := ⟨typeAt Value.type m.values m.path[0]?, typeAt Value.type m.values m.path[1]?⟩
  act a m :=
    match a with
    | .newValue _ =>
      match m.chain with
      | [] => .undefined
      | v :: chain =>
        match v.alloc with
        | none => .undefined
        | some v => .ok { m with chain, values := m.values ++ [v], path := m.values.length :: m.path }
    | .setTrue => m.modifyTop fun v ↦ some { v with boolean := true }
    | .beginString => m.point fun k _ ↦ .string k
    | .beginName => m.point fun k v ↦ .names k v.objectMem
    | .add k b => m.put k b
    | .endString length =>
      match m.put length 0 with
      | .ok m => { m with string := none }.modifyTop fun v ↦ some { v with length }
      | r => r
    | .endName length =>
      match m.put length 0 with
      | .ok m => { m with string := none }.modifyTop fun v ↦ v.setName length
      | r => r
    | .digit d => m.modifyTop fun v ↦ some { v with integer := wrap (v.integer * 10 + d) }
    | .toDouble => m.modifyTop fun v ↦ some { v with type := .double }
    | .negate => m.modifyTop fun v ↦ some { v with integer := wrap (-v.integer) }
    | .attach =>
      match m.path with
      | k :: p :: path =>
        match m.modify p fun v ↦ v.attach k with
        | .ok m =>
          if uintMax < (m.values[p]?.map Value.length).getD 0 then .tooLong
          else .ok { m with path := p :: path }
        | r => r
      | _ => .undefined

/-- The text without the UTF-8 BOM. -/
def skipBom (json : Bytes) : Bytes := if [0xEF, 0xBB, 0xBF] <+: json then json.drop 3 else json

/-- `json_parse_ex`. The value of a text is the first one of the second pass. -/
def jsonParseEx (json : Bytes) : Result SecondPass :=
  let json := skipBom json
  match loop firstPass true (fuelFor json.length) (.start json) ⟨[], []⟩ with
  | .parsed m =>
    loop secondPass false (fuelFor json.length) (.start json) ⟨m.values, [], [], none⟩
  | .failed f line off => .failed f line off
  | .undefined => .undefined
  | .outOfFuel => .outOfFuel

end OpenWrtCompile.Server.JsonParser
