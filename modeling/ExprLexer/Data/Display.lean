import ExprLexer.Data.Value
import ExprLexer.Number.Shortest
import ExprLexer.Text.Quoted

/-!
# Values in messages

The text by which a message shows a value, and the name of the value's type. A set has no order; it
is shown in the order of the document.
-/

namespace ExprLexer.Data

def quotedByte (q : Char) (b : UInt8) : List Char :=
  let n := b.toNat
  if n = q.toNat ∨ n = 0x5C then ['\\', Char.ofNat n]
  else if n = 0x09 then ['\\', 't']
  else if n = 0x0A then ['\\', 'n']
  else if n = 0x0D then ['\\', 'r']
  else if 0x20 ≤ n ∧ n < 0x7F then [Char.ofNat n]
  else '\\' :: 'x' :: Text.hex Text.lowerDigit 2 n

def quotedBytes (bs : List UInt8) : List Char :=
  let q := Text.delimiter (bs.map UInt8.toNat)
  'b' :: q :: (bs.flatMap (quotedByte q) ++ [q])

def commas (items : List (List Char)) : List Char := (items.intersperse [',', ' ']).flatten

mutual

def display : Data → List Char
  | null => "None".toList
  | bool true => "True".toList
  | bool false => "False".toList
  | int i => (toString i).toList
  | real x => x.display.toList
  | text t => Text.quoted t
  | bytes bs => quotedBytes bs
  | date y m d =>
    ("datetime.date(" ++ toString y ++ ", " ++ toString m ++ ", " ++ toString d ++ ")").toList
  | moment m => m.text.toList
  | pair k v => '(' :: (display k ++ ',' :: ' ' :: display v ++ [')'])
  | list items => '[' :: (commas (displayItems items) ++ [']'])
  | set [] => "set()".toList
  | set (x :: xs) => '\x7b' :: (commas (display x :: displayItems xs) ++ ['\x7d'])
  | mapping entries => '\x7b' :: (commas (displayEntries entries) ++ ['\x7d'])

def displayItems : List Data → List (List Char)
  | [] => []
  | x :: xs => display x :: displayItems xs

def displayEntries : List (Data × Data) → List (List Char)
  | [] => []
  | (k, v) :: rest => (display k ++ ':' :: ' ' :: display v) :: displayEntries rest

end

def typeName : Data → String
  | null => "NoneType"
  | bool _ => "bool"
  | int _ => "int"
  | real _ => "float"
  | text _ => "str"
  | bytes _ => "bytes"
  | date .. => "date"
  | moment _ => "datetime"
  | pair .. => "tuple"
  | list _ => "list"
  | set _ => "set"
  | mapping _ => "dict"

mutual

/-- Whether there is an integer in the value that is too long to be written. -/
def hasLong : Data → Bool
  | int i => Text.isLong i
  | pair k v => hasLong k || hasLong v
  | list items | set items => hasLongItem items
  | mapping entries => hasLongEntry entries
  | _ => false

def hasLongItem : List Data → Bool
  | [] => false
  | x :: xs => hasLong x || hasLongItem xs

def hasLongEntry : List (Data × Data) → Bool
  | [] => false
  | (k, v) :: rest => hasLong k || hasLong v || hasLongEntry rest

end

/-- The value as messages show it. -/
def shown (d : Data) : List Char :=
  if d.hasLong then ("<unprintable " ++ d.typeName ++ " object>").toList else d.display

/-- The characters at the front that fit into `n` bytes. -/
def fitting (n : Nat) : List Char → List Char
  | [] => []
  | c :: cs => if c.utf8Size ≤ n then c :: fitting (n - c.utf8Size) cs else []

/-- The text itself if it has at most fifty bytes; otherwise its first 25 and last 24, cut between
characters, around three points. -/
def abridge (cs : List Char) : List Char :=
  if (String.ofList cs).utf8ByteSize ≤ 50 then cs
  else fitting 25 cs ++ ['.', '.', '.'] ++ (fitting 24 cs.reverse).reverse

end ExprLexer.Data
