import Ddns.Coordinator.Receipts
import Ddns.Lib.Double
import Ddns.Lib.JsonOrder

/-!
# Receipts of the node agent

The node agent signs the canonical JSON of a receipt and sends the receipt as JSON, with its
properties in the order of the struct. `sent` is the value that the coordinator parses from that
text: a number becomes a double, and an object enumerates its array indices first.
-/

namespace Ddns.NodeAgent

open Coordinator (typeKey nodeIdKey tsKey resultHashKey detailsKey)

/-- What the agent takes from its crates: the text with which a float is written as JSON. -/
structure FloatFormat where
  text : Double → JsText
  isNumText : ∀ d, Json.isNumText (text d)

/-- A number of `serde_json`. -/
inductive Number where
  | posInt (n : UInt64)
  | negInt (n : { i : ℤ // -2 ^ 63 ≤ i ∧ i < 0 })
  | float (d : Double)

inductive Value where
  | null
  | bool (b : Bool)
  | number (n : Number)
  | string (s : JsText)
  | array (items : List Value)
  /-- The entries of the map, as it iterates over them. -/
  | object (map : List (JsText × Value))

/-! ## Maps -/

section Map

variable {β : Type*}

/-- `insert`, into entries in the order of the keys. -/
def insertEntry (k : JsText) (v : β) : List (JsText × β) → List (JsText × β)
  | [] => [(k, v)]
  | e :: map =>
    match compare k e.1 with
    | .lt => (k, v) :: e :: map
    | .eq => (k, v) :: map
    | .gt => e :: insertEntry k v map

/-- The map of the entries, inserted one after the other. -/
def collect (entries : List (JsText × β)) : List (JsText × β) :=
  entries.foldl (fun map e => insertEntry e.1 e.2 map) []

end Map

namespace Value

mutual

def canonicalJson : Value → Value
  | .object map => .object (collect (canonicalFields map))
  | .array items => .array (canonicalItems items)
  | .null => .null
  | .bool b => .bool b
  | .number n => .number n
  | .string s => .string s
termination_by structural v => v

def canonicalItems : List Value → List Value
  | [] => []
  | v :: vs => canonicalJson v :: canonicalItems vs
termination_by structural vs => vs

def canonicalFields : List (JsText × Value) → List (JsText × Value)
  | [] => []
  | e :: es => canonicalField e :: canonicalFields es
termination_by structural es => es

def canonicalField : JsText × Value → JsText × Value
  | (k, v) => (k, canonicalJson v)
termination_by structural e => e

end

/-! ## Texts and transport -/

/-- The JSON of a value, by the texts of its numbers and an order of its properties. -/
structure Codec where
  number : Number → JsText
  order : List (JsText × Json) → List (JsText × Json)

mutual

def toJson (codec : Codec) : Value → Json
  | .null => .null
  | .bool b => .bool b
  | .number n => .num (codec.number n)
  | .string s => .str s
  | .array items => .arr (itemsToJson codec items)
  | .object map => .obj (codec.order (fieldsToJson codec map))
termination_by structural v => v

def itemsToJson (codec : Codec) : List Value → List Json
  | [] => []
  | v :: vs => toJson codec v :: itemsToJson codec vs
termination_by structural vs => vs

def fieldsToJson (codec : Codec) : List (JsText × Value) → List (JsText × Json)
  | [] => []
  | e :: es => fieldToJson codec e :: fieldsToJson codec es
termination_by structural es => es

def fieldToJson (codec : Codec) : JsText × Value → JsText × Json
  | (k, v) => (k, toJson codec v)
termination_by structural e => e

end

end Value

/-- A number as `to_string` writes it. -/
def Number.text (format : FloatFormat) : Number → JsText
  | .posInt n => decimal n.toNat
  | .negInt i => '-' :: decimal i.val.natAbs
  | .float d => format.text d

/-- A number after `JSON.parse` of its text, as `JSON.stringify` writes it. -/
def Number.parsedText : Number → JsText
  | .posInt n => decimal (reprint n.toNat)
  | .negInt i => '-' :: decimal (reprint i.val.natAbs)
  | .float d => d.toText

/-- What `to_string` writes. -/
def Value.written (format : FloatFormat) (v : Value) : Json := v.toJson ⟨Number.text format, id⟩

/-- What the coordinator parses. -/
def Value.parsed (v : Value) : Json := v.toJson ⟨Number.parsedText, Json.enumerate⟩

mutual

/-- The keys of every map are distinct. -/
def Value.distinct : Value → Bool
  | .array items => Value.distinctItems items
  | .object map => decide (map.map Prod.fst).Nodup && Value.distinctFields map
  | _ => true
termination_by structural v => v

def Value.distinctItems : List Value → Bool
  | [] => true
  | v :: vs => v.distinct && Value.distinctItems vs
termination_by structural vs => vs

def Value.distinctFields : List (JsText × Value) → Bool
  | [] => true
  | e :: es => Value.distinctField e && Value.distinctFields es
termination_by structural es => es

def Value.distinctField : JsText × Value → Bool
  | (_, v) => v.distinct
termination_by structural e => e

end

/-! ## Equations -/

namespace Value

/-- **Induction over a value**: the items of an array and the entries of a map come first. -/
@[elab_as_elim, induction_eliminator]
theorem induction {P : Value → Prop} (null : P .null) (bool : ∀ b, P (.bool b))
    (number : ∀ n, P (.number n)) (string : ∀ s, P (.string s))
    (array : ∀ items, (∀ v ∈ items, P v) → P (.array items))
    (object : ∀ map, (∀ e ∈ map, P e.2) → P (.object map)) (v : Value) : P v := by
  refine Value.rec (motive_1 := P) (motive_2 := fun items => ∀ v ∈ items, P v)
    (motive_3 := fun map => ∀ e ∈ map, P e.2) (motive_4 := fun e => P e.2)
    null bool number string array object ?_ ?_ ?_ ?_ ?_ v
  · intro v hv
    cases hv
  · intro v items hv hitems w hw
    rcases List.mem_cons.1 hw with rfl | hw
    · exact hv
    · exact hitems w hw
  · intro e he
    cases he
  · intro e map he hmap f hf
    rcases List.mem_cons.1 hf with rfl | hf
    · exact he
    · exact hmap f hf
  · exact fun _ _ h => h

theorem canonicalJson_array (items : List Value) :
    canonicalJson (.array items) = .array (items.map canonicalJson) := by
  rw [canonicalJson]
  congr 1
  induction items with
  | nil => rfl
  | cons v vs ih => rw [canonicalItems, ih, List.map_cons]

theorem canonicalJson_object (map : List (JsText × Value)) :
    canonicalJson (.object map) = .object (collect (map.map fun e => (e.1, canonicalJson e.2))) := by
  rw [canonicalJson]
  congr 2
  induction map with
  | nil => rfl
  | cons e es ih =>
    obtain ⟨k, v⟩ := e
    rw [canonicalFields, ih, canonicalField, List.map_cons]

theorem toJson_array (codec : Codec) (items : List Value) :
    toJson codec (.array items) = .arr (items.map (toJson codec)) := by
  rw [toJson]
  congr 1
  induction items with
  | nil => rfl
  | cons v vs ih => rw [itemsToJson, ih, List.map_cons]

theorem toJson_object (codec : Codec) (map : List (JsText × Value)) :
    toJson codec (.object map) = .obj (codec.order (map.map fun e => (e.1, toJson codec e.2))) := by
  rw [toJson]
  congr 2
  induction map with
  | nil => rfl
  | cons e es ih =>
    obtain ⟨k, v⟩ := e
    rw [fieldsToJson, ih, fieldToJson, List.map_cons]

theorem distinct_array {items : List Value} : distinct (.array items) ↔ ∀ v ∈ items, distinct v := by
  rw [distinct]
  induction items with
  | nil => simp [distinctItems]
  | cons v vs ih => simp [distinctItems, ih]

theorem distinct_object {map : List (JsText × Value)} :
    distinct (.object map) ↔ (map.map Prod.fst).Nodup ∧ ∀ e ∈ map, distinct e.2 := by
  have hfields : distinctFields map ↔ ∀ e ∈ map, distinct e.2 := by
    induction map with
    | nil => simp [distinctFields]
    | cons e es ih =>
      obtain ⟨k, v⟩ := e
      simp [distinctFields, distinctField, ih]
  rw [distinct, Bool.and_eq_true, decide_eq_true_eq, hfields]

end Value

/-! ## Receipts -/

structure ReceiptRequest where
  name : JsText

structure Receipt where
  receiptType : JsText
  nodeId : JsText
  ts : UInt64
  request : Option ReceiptRequest
  resultHash : Option JsText
  bytes : Option UInt64
  details : Option { v : Value // v.distinct }

structure ReceiptEnvelope where
  receipt : Receipt
  signature : JsText
  publicKey : JsText

def requestKey : JsText := ['r', 'e', 'q', 'u', 'e', 's', 't']
def nameKey : JsText := ['n', 'a', 'm', 'e']
def bytesKey : JsText := ['b', 'y', 't', 'e', 's']

/-- An option is written as `null` if it is absent. -/
def optional {α : Type*} (f : α → Value) : Option α → Value
  | some a => f a
  | none => .null

def ReceiptRequest.toValue (request : ReceiptRequest) : Value :=
  .object [(nameKey, .string request.name)]

/-- The fields of the struct as they are serialized; absent details are skipped. -/
def Receipt.fields (receipt : Receipt) : List (JsText × Value) :=
  [(typeKey, .string receipt.receiptType), (nodeIdKey, .string receipt.nodeId),
    (tsKey, .number (.posInt receipt.ts)),
    (requestKey, optional ReceiptRequest.toValue receipt.request),
    (resultHashKey, optional .string receipt.resultHash),
    (bytesKey, optional (fun n => .number (.posInt n)) receipt.bytes)] ++
    (receipt.details.map fun details => (detailsKey, details.val)).toList

/-- `to_value`, which collects the fields in a map. -/
def Receipt.toValue (receipt : Receipt) : Value := .object (collect receipt.fields)

def receiptMessage (format : FloatFormat) (receipt : Receipt) : JsText :=
  ['r', 'e', 'c', 'e', 'i', 'p', 't', '\n'] ++
    (receipt.toValue.canonicalJson.written format).stringify

/-- The receipt that the coordinator parses. -/
def Receipt.sent (receipt : Receipt) : Json := (Value.object receipt.fields).parsed

/-- A key of the agent. The coordinator decodes what the agent encodes, and accepts what the agent
signs. -/
structure SigningKey (rt : Coordinator.Runtime) where
  encode : List UInt8 → JsText
  verifyingKey : List UInt8
  sign : List UInt8 → List UInt8
  base64ToBytes_encode : ∀ bytes, rt.base64ToBytes (encode bytes) = bytes
  length_verifyingKey : verifyingKey.length = 32
  length_sign : ∀ msg, (sign msg).length = 64
  verifyAsync_sign : ∀ msg, rt.verifyAsync (sign msg) msg verifyingKey = some true

def signReceipt {rt : Coordinator.Runtime} (format : FloatFormat) (key : SigningKey rt)
    (receipt : Receipt) : ReceiptEnvelope where
  receipt := receipt
  signature := key.encode (key.sign (receiptMessage format receipt).utf8)
  publicKey := key.encode key.verifyingKey

end Ddns.NodeAgent
