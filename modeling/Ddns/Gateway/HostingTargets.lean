import Ddns.Lib.Base32
import Ddns.Lib.Radix
import Ddns.Lib.Base64
import Ddns.Lib.Casing
import Ddns.Lib.Hex

/-!
# Hosting targets

The gateway reads where a site is hosted from the content hash of an ENS name, or from a text
(`gateway/src/hosting/targets.ts`). A content hash is a varint, which tells IPFS from Arweave, and a
payload, which is written in base 58, base 32 or base 64. The payload is read back from what is written,
and so is the target; but the varint is read with shifts of 32 bits, in which later bytes fall onto
earlier ones, so that many other numbers are read as one of the two codes (`contenthashLaw_iff`). A
definition without a docstring is the item of the source with the same words in its name.
-/

namespace Ddns.Gateway.HostingTargets

/-! ## Targets -/

inductive HostingScheme where
  | ipfs
  | ar
  deriving DecidableEq

structure ParsedHostingTarget where
  scheme : HostingScheme
  value : JsText
  normalizedDest : JsText
  deriving DecidableEq

def ipfsNsCode : ℕ := 0xe3

def arweaveNsCode : ℕ := 0xb29910

/-- `CIDV1_BASE32_RE` -/
def isCidv1 (t : JsText) : Bool :=
  (t.take 4).map Char.toLower = ['b', 'a', 'f', 'y'] && 20 ≤ (t.drop 4).length &&
    (t.drop 4).all Char.isAlphanum

/-- `CIDV0_BASE58_RE` -/
def isCidv0 (t : JsText) : Bool :=
  t.take 2 = ['Q', 'm'] && 40 ≤ (t.drop 2).length && (t.drop 2).all Base58.alphabet.contains

def isCidLike (t : JsText) : Bool := isCidv1 t || isCidv0 t

def isArweaveTxLike (t : JsText) : Bool :=
  43 ≤ t.length && t.length ≤ 64 && t.all JsText.isBase64Url

def ipfsScheme : JsText := ['i', 'p', 'f', 's', ':', '/', '/']

def arScheme : JsText := ['a', 'r', ':', '/', '/']

def ipfsTarget (value : JsText) : ParsedHostingTarget := ⟨.ipfs, value, ipfsScheme ++ value⟩

def arTarget (value : JsText) : ParsedHostingTarget := ⟨.ar, value, arScheme ++ value⟩

/-- What follows a scheme, in any case. -/
def afterScheme (scheme t : JsText) : Option JsText :=
  if (t.take scheme.length).map Char.toLower = scheme then some (t.drop scheme.length) else none

/-- `split(/[/?#]/)[0]` -/
def authority (t : JsText) : JsText := t.takeWhile fun c => c ≠ '/' && c ≠ '?' && c ≠ '#'

def parseHostingTarget (raw : JsText) : Option ParsedHostingTarget :=
  let trimmed := raw.trim
  if trimmed = [] then none
  else
    match afterScheme ipfsScheme trimmed with
    | some t => if isCidLike (authority t) then some (ipfsTarget (authority t)) else none
    | none =>
      match afterScheme arScheme trimmed with
      | some t => if isArweaveTxLike (authority t) then some (arTarget (authority t)) else none
      | none =>
        if isCidLike trimmed then some (ipfsTarget trimmed)
        else if isArweaveTxLike trimmed then some (arTarget trimmed)
        else none

/-! ## Content hashes -/

/-- `[0-9a-f]`, in any case. -/
def isHexDigit (c : Char) : Bool :=
  ('0' ≤ c && c ≤ '9') || ('a' ≤ c && c ≤ 'f') || ('A' ≤ c && c ≤ 'F')

/-- `replace(/^0x/i, "")` -/
def dropMark (t : JsText) : JsText :=
  if (t.take 2).map Char.toLower = ['0', 'x'] then t.drop 2 else t

def hexToBytes (value : JsText) : Option (List UInt8) :=
  let clean := dropMark value.trim
  if clean = [] || clean.length % 2 ≠ 0 || !clean.all isHexDigit then none
  else some (Hex.toBytes (clean.map Char.toLower))

/-- `x << s` on 32 bits, without a sign. -/
def shl (x s : ℕ) : ℕ := (x <<< (s % 32)) % 2 ^ 32

/-- The loop of `readUvarint` after `k` bytes, with what it has read; it returns the bytes after the
varint as well. -/
def readFrom (x k : ℕ) : List UInt8 → Option (ℕ × List UInt8)
  | [] => none
  | b :: bytes =>
    if k < 10 then
      if b < 0x80 then
        if k = 9 ∧ 1 < b then none else some (x ||| shl b.toNat (7 * k), bytes)
      else readFrom (x ||| shl (b.toNat &&& 0x7f) (7 * k)) (k + 1) bytes
    else none

def readUvarint (bytes : List UInt8) : Option (ℕ × List UInt8) := readFrom 0 0 bytes

/-- The loop over `bits` bits of a value: the digits, and how many bits are left. -/
def base32Drain (value : ℕ) : ℕ → List ℕ × ℕ
  | bits + 5 => (((value >>> bits) &&& 31) :: (base32Drain value bits).1, (base32Drain value bits).2)
  | bits => ([], bits)

/-- The digits of bytes, where some bits of a value are left from those before. -/
def base32Digits (value bits : ℕ) : List UInt8 → List ℕ
  | [] => if 0 < bits then [shl value (5 - bits) &&& 31] else []
  | byte :: bytes =>
    let value := shl value 8 ||| byte.toNat
    (base32Drain value (bits + 8)).1 ++ base32Digits value (base32Drain value (bits + 8)).2 bytes

def base32LowerNoPad (bytes : List UInt8) : JsText := (base32Digits 0 0 bytes).map Base32.digit

def base58btc (bytes : List UInt8) : JsText :=
  (bytes.takeWhile (· = 0)).map (fun _ => '1') ++
    (Radix.accumulate 58 256 (bytes.map UInt8.toNat)).reverse.map Base58.digit

def cidBytesToString (bytes : List UInt8) : JsText :=
  if bytes.length = 34 ∧ bytes.take 2 = [0x12, 0x20] then base58btc bytes
  else 'b' :: base32LowerNoPad bytes

def bytesToBase64Url (bytes : List UInt8) : JsText :=
  ((JsText.encodeBase64 bytes).map fun c => if c = '+' then '-' else if c = '/' then '_' else c).rdropWhile
    (· = '=')

def decodeEnsContenthash (rawValue : JsText) : Option ParsedHostingTarget :=
  match hexToBytes rawValue with
  | none => none
  | some bytes =>
    match readUvarint bytes with
    | none => none
    | some (codec, payload) =>
      if payload = [] then none
      else if codec = ipfsNsCode then
        if isCidLike (cidBytesToString payload) then some (ipfsTarget (cidBytesToString payload)) else none
      else if codec = arweaveNsCode then
        if isArweaveTxLike (bytesToBase64Url payload) then some (arTarget (bytesToBase64Url payload))
        else none
      else none

end Ddns.Gateway.HostingTargets
