import ConwayTx.Bytes
/-!
Data items and their bytes. A container announces the number that it is given, be it that of its
members or not.
-/

namespace ConwayTx.Cbor

inductive Item
  | nat (n : UInt64)
  | neg (n : UInt64)
  | bytes (b : Bytes)
  | chunks (pieces : List Bytes)
  | text (t : String)
  | array (count : Nat) (items : List Item)
  | stream (items : List Item)
  | map (count : Nat) (entries : List (Item × Item))
  | tag (t : UInt64) (item : Item)
  | bool (b : Bool)
  | null

def initialByte (major : Nat) (argument : Nat) : UInt8 := UInt8.ofNat (major * 32 + argument)

/-- The head of an item in the narrowest of the five widths. -/
def head (major : Nat) (n : Nat) : Bytes :=
  if n < 24 then [initialByte major n]
  else if n < UInt8.size then initialByte major 24 :: Bytes.ofNat 1 n
  else if n < UInt16.size then initialByte major 25 :: Bytes.ofNat 2 n
  else if n < UInt32.size then initialByte major 26 :: Bytes.ofNat 4 n
  else initialByte major 27 :: Bytes.ofNat 8 n

def breakByte : UInt8 := 0xff

def encodeBytes (b : Bytes) : Bytes := head 2 b.length ++ b

namespace Item

mutual

def encode : Item → Bytes
  | nat n => head 0 n.toNat
  | neg n => head 1 n.toNat
  | bytes b => encodeBytes b
  | chunks pieces => initialByte 2 31 :: (pieces.flatMap encodeBytes ++ [breakByte])
  | text t => head 3 t.utf8ByteSize ++ t.toUTF8.toList
  | array count items => head 4 count ++ encodeAll items
  | stream items => initialByte 4 31 :: (encodeAll items ++ [breakByte])
  | map count entries => head 5 count ++ encodeEntries entries
  | tag t item => head 6 t.toNat ++ encode item
  | bool b => [initialByte 7 (if b then 21 else 20)]
  | null => [initialByte 7 22]

def encodeAll : List Item → Bytes
  | [] => []
  | item :: rest => encode item ++ encodeAll rest

def encodeEntries : List (Item × Item) → Bytes
  | [] => []
  | (key, value) :: rest => encode key ++ encode value ++ encodeEntries rest

end

def ofNat (n : Nat) : Item := nat (UInt64.ofNat n)

/-- The integer in its major type; only meaningful from `-UInt64.size` up to `UInt64.size - 1`. -/
def ofInt : Int → Item
  | .ofNat n => nat (UInt64.ofNat n)
  | .negSucc n => neg (UInt64.ofNat n)

def option {α : Type} (f : α → Item) : Option α → Item
  | some a => f a
  | none => null

def embedded (content : Bytes) : Item := tag 24 (bytes content)

end Item

end ConwayTx.Cbor
