import Ddns.Solana.Keys
import Mathlib.Data.List.DropRight
import Mathlib.Data.List.Infix

/-!
# Names as text

A string is the list of its characters; `len` counts the bytes of its UTF-8 encoding. The program
normalizes the names it is given, and a premium name has to be one label before `.dns`
(`premiumLabel_eq_ok`). A definition without a docstring is the item of the source with the same
words in its name.
-/

namespace Ddns.Names

open Tx

inductive NamesError where
  | unauthorized
  | invalidName
  | invalidLabel
  | invalidHash
  | invalidParent
  | disabled
  | nonTransferable
  | parentOwnerRequired
  | invalidTransferPolicy
  | invalidKind
  | missingRequiredAccount
  | reservedName
  | auctionRequired
  | invalidAuctionDomain
  | invalidAuctionConfig
  | auctionClosed
  | bidTooLow
  | invalidBid
  | invalidNftMint
  | invalidNftTokenAccount
  | nftAlreadyIssued
  | nftBoundTransferRequiresSync
  | nftBindingRequired
  | escrowInactive
  | winnerCannotWithdraw
  | nothingToWithdraw
  | alreadySettled
  | auctionNotEnded
  | noWinningBid
  | escrowInsufficient
  | invalidTreasury
  | mathOverflow
  deriving DecidableEq, Repr

/-- A string. -/
abbrev Text := List Char

/-- `as_bytes`. -/
def asBytes (t : Text) : List UInt8 := t.flatMap String.utf8EncodeChar

/-- `len`, in bytes. -/
def len (t : Text) : Nat := (t.map Char.utf8Size).sum

/-- `char::is_whitespace`: the characters with the property White_Space. -/
def isWhitespace (c : Char) : Bool :=
  let n := c.toNat
  (9 ≤ n && n ≤ 13) || n = 0x20 || n = 0x85 || n = 0xa0 || n = 0x1680 ||
    (0x2000 ≤ n && n ≤ 0x200a) || n = 0x2028 || n = 0x2029 || n = 0x202f || n = 0x205f || n = 0x3000

def trim (t : Text) : Text := (t.dropWhile isWhitespace).rdropWhile isWhitespace

def toAsciiLowercase (t : Text) : Text := t.map Char.toLower

/-- `.dns` -/
def dnsSuffix : Text := ['.', 'd', 'n', 's']

def normalizeFullName (input : Text) : Result NamesError Text := do
  let lower := toAsciiLowercase (trim input)
  let normalized := lower.rdropWhile (· = '.')
  require (normalized ≠ [] ∧ len normalized ≤ 253) .invalidName
  require (¬['.', '.'] <:+: normalized) .invalidName
  pure normalized

/-- The characters of a label. -/
def isLabelChar (c : Char) : Bool :=
  ('a' ≤ c && c ≤ 'z') || ('0' ≤ c && c ≤ '9') || c = '-'

/-- A label of `lo` to 32 characters, with no hyphen at its ends. -/
def validateLabelFrom (lo : Nat) (label : Text) : Result NamesError Unit := do
  require (lo ≤ len label ∧ len label ≤ 32) .invalidLabel
  require (label.head? ≠ some '-' ∧ label.getLast? ≠ some '-') .invalidLabel
  require (label.all isLabelChar) .invalidLabel

def validateLabel : Text → Result NamesError Unit := validateLabelFrom 3

def validatePremiumLabel : Text → Result NamesError Unit := validateLabelFrom 1

def normalizeLabel (input : Text) : Result NamesError Text := do
  let label := toAsciiLowercase (trim input)
  validateLabel label
  pure label

def premiumLabel (normalized : Text) : Result NamesError Text := do
  require (dnsSuffix <:+ normalized) .invalidName
  match normalized.splitOn '.' with
  | [label, _] => pure label
  | _ => .error (.custom .invalidName)

/-- The characters of a label take one byte each. -/
theorem isLabelChar_utf8Size {c : Char} (hc : isLabelChar c = true) : c.utf8Size = 1 := by
  have hle : c.val ≤ 127 := by
    simp only [isLabelChar, Bool.or_eq_true, Bool.and_eq_true, decide_eq_true_eq, Char.le_def] at hc
    rcases hc with (⟨-, hc⟩ | ⟨-, hc⟩) | rfl
    · exact UInt32.le_trans hc (by decide)
    · exact UInt32.le_trans hc (by decide)
    · decide
  exact Char.utf8Size_eq_one_iff.2 hle

theorem len_of_all {label : Text} (hall : label.all isLabelChar = true) :
    len label = label.length := by
  have hone : ∀ n ∈ label.map Char.utf8Size, n = 1 := by
    intro n hn
    obtain ⟨c, hc, rfl⟩ := List.mem_map.1 hn
    exact isLabelChar_utf8Size (List.all_eq_true.1 hall c hc)
  unfold len
  rw [List.eq_replicate_of_mem hone, List.sum_replicate_nat, List.length_map, Nat.mul_one]

/-- A label that passes the checks has as many bytes as characters. -/
theorem len_of_validateLabelFrom {lo : Nat} {label : Text}
    (hok : validateLabelFrom lo label = .ok ()) : len label = label.length := by
  simp only [validateLabelFrom, bind_eq_ok, require_eq_ok, exists_unit] at hok
  exact len_of_all hok.2.2

/-- What the checks of a label ask for. -/
theorem validateLabelFrom_eq_ok {lo : Nat} {label : Text} : validateLabelFrom lo label = .ok () ↔
    (lo ≤ label.length ∧ label.length ≤ 32) ∧
      (label.head? ≠ some '-' ∧ label.getLast? ≠ some '-') ∧ label.all isLabelChar = true := by
  have hiff : validateLabelFrom lo label = .ok () ↔ (lo ≤ len label ∧ len label ≤ 32) ∧
      (label.head? ≠ some '-' ∧ label.getLast? ≠ some '-') ∧ label.all isLabelChar = true := by
    simp only [validateLabelFrom, bind_eq_ok, require_eq_ok, exists_unit]
  rw [hiff]
  constructor
  · rintro ⟨hlen, hends, hall⟩
    rw [len_of_all hall] at hlen
    exact ⟨hlen, hends, hall⟩
  · rintro ⟨hlen, hends, hall⟩
    rw [← len_of_all hall] at hlen
    exact ⟨hlen, hends, hall⟩

/-- A text splits into one piece exactly if it does not contain the separator. -/
theorem splitOn_eq_one {t u : Text} {c : Char} : t.splitOn c = [u] ↔ t = u ∧ c ∉ t := by
  constructor
  · intro h
    have htu : t = u := by
      have hjoin : [c].intercalate (t.splitOn c) = t := List.intercalate_splitOn c
      rw [h] at hjoin
      simpa using hjoin.symm
    refine ⟨htu, fun hmem => ?_⟩
    obtain ⟨a, b, hab⟩ := List.append_of_mem hmem
    rw [hab, List.splitOn_append_cons_self] at h
    have hlen := congrArg List.length h
    have ha := List.length_pos_iff.2 (List.splitOn_ne_nil c a)
    have hb := List.length_pos_iff.2 (List.splitOn_ne_nil c b)
    rw [List.length_append, List.length_singleton] at hlen
    omega
  · rintro ⟨rfl, hmem⟩
    exact List.splitOn_eq_singleton hmem

/-- **The premium names** are the labels without a dot, followed by `.dns`. -/
theorem premiumLabel_eq_ok {normalized label : Text} :
    premiumLabel normalized = .ok label ↔ normalized = label ++ dnsSuffix ∧ '.' ∉ label := by
  -- The last piece of a name that ends in `.dns` is `dns`; the others come from what is before.
  have hsplit : ∀ t : Text, (t ++ dnsSuffix).splitOn '.' = t.splitOn '.' ++ [['d', 'n', 's']] := by
    intro t
    show (t ++ '.' :: ['d', 'n', 's']).splitOn '.' = _
    rw [List.splitOn_append_cons_self]
    rfl
  constructor
  · intro h
    simp only [premiumLabel, bind_eq_ok, require_eq_ok, exists_unit] at h
    obtain ⟨⟨t, rfl⟩, h⟩ := h
    rw [hsplit] at h
    split at h
    · next _ r heq =>
      cases h
      have hone : t.splitOn '.' = [label] := by
        have hpair : t.splitOn '.' ++ [['d', 'n', 's']] = [label] ++ [r] := heq
        exact (List.append_inj' hpair rfl).1
      obtain ⟨rfl, hmem⟩ := splitOn_eq_one.1 hone
      exact ⟨rfl, hmem⟩
    · cases h
  · rintro ⟨rfl, hmem⟩
    have hone : label.splitOn '.' = [label] := splitOn_eq_one.2 ⟨rfl, hmem⟩
    simp only [premiumLabel, bind_eq_ok, require_eq_ok, exists_unit, hsplit, hone]
    exact ⟨List.suffix_append .., rfl⟩

end Ddns.Names
