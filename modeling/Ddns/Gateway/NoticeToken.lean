import Ddns.Lib.Base64
import Ddns.Lib.JsonText
import Ddns.Lib.TextDecoder

/-!
# Notice tokens

The gateway signs notices about the continuity of a domain (`gateway/src/lib/notice_token.ts`). A token
is the JSON of the notice and its signature, each in base 64, with a point between them. To verify a
token is to read the two parts and check the signature, so the parts may be written in another way,
other parts may follow, and the notice may have expired long ago. `noticeLaw_iff` says that nothing else
goes wrong. A definition without a docstring is the item of the source with the same words in its name.
-/

namespace Ddns.Gateway.NoticeToken

/-! ## Model -/

inductive DomainContinuityPhase where
  | aSoftWarning
  | bHardWarning
  | holdBanner
  | cSafeParked
  | dRegistryFinalization
  deriving DecidableEq

def DomainContinuityPhase.text : DomainContinuityPhase → String
  | .aSoftWarning => "A_SOFT_WARNING"
  | .bHardWarning => "B_HARD_WARNING"
  | .holdBanner => "HOLD_BANNER"
  | .cSafeParked => "C_SAFE_PARKED"
  | .dRegistryFinalization => "D_REGISTRY_FINALIZATION"

structure DomainNoticePayload where
  domain : JsText
  phase : DomainContinuityPhase
  issuedAt : JsText
  expiresAt : JsText
  reasonCodes : List JsText
  policyVersion : JsText
  nonce : JsText
  deriving DecidableEq

def DomainNoticePayload.toJson (p : DomainNoticePayload) : Json :=
  .obj [
    ("domain".toList, .str p.domain),
    ("phase".toList, .str p.phase.text.toList),
    ("issued_at".toList, .str p.issuedAt),
    ("expires_at".toList, .str p.expiresAt),
    ("reason_codes".toList, .arr (p.reasonCodes.map Json.str)),
    ("policy_version".toList, .str p.policyVersion),
    ("nonce".toList, .str p.nonce)]

/-- What the gateway takes from its platform: signing with its key, checking a signature of a message
under the key, which may throw, `JSON.parse`, which may throw, and `Date.parse`. -/
structure Platform where
  sign : List UInt8 → List UInt8
  verify : List UInt8 → List UInt8 → Option Bool
  parse : JsText → Option Json
  dateParse : JsText → Option ℤ

/-- The bytes that are signed. -/
def DomainNoticePayload.bytes (p : DomainNoticePayload) : List UInt8 := p.toJson.stringify.utf8

def createNoticeToken (pf : Platform) (p : DomainNoticePayload) : JsText :=
  JsText.encodeBase64Url p.bytes ++ '.' :: JsText.encodeBase64Url (pf.sign p.bytes)

/-- The payload, if the token is valid. -/
def verifyNoticeToken (pf : Platform) (token : JsText) : Option Json :=
  match token.splitOn '.' with
  | payloadPart :: sigPart :: _ =>
    if payloadPart = [] ∨ sigPart = [] then none
    else
      let payloadBytes := JsText.decodeBase64Url payloadPart
      let sigBytes := JsText.decodeBase64Url sigPart
      if pf.verify sigBytes payloadBytes = some true then
        pf.parse (TextDecoder.decodeFrom none payloadBytes)
      else none
  | _ => none

/-! ## The law -/

/-- It is not past the time at which a notice expires. -/
def NotPast (pf : Platform) (now : ℤ) (p : DomainNoticePayload) : Prop :=
  ∃ t, pf.dateParse p.expiresAt = some t ∧ now ≤ t

/-- **The notice law** of a token and a time, with the notices that the gateway has issued: a valid token
is that of a notice that has not expired, and the token of such a notice is valid for it. -/
structure NoticeLaw (pf : Platform) (issued : List DomainNoticePayload) (token : JsText) (now : ℤ) :
    Prop where
  sound : (verifyNoticeToken pf token).isSome → ∃ p ∈ issued, token = createNoticeToken pf p ∧
    NotPast pf now p
  complete : ∀ p ∈ issued, NotPast pf now p →
    verifyNoticeToken pf (createNoticeToken pf p) = some p.toJson

/-- The first two parts of a token are read as a notice and its signature. -/
def Carries (pf : Platform) (token : JsText) (p : DomainNoticePayload) : Prop :=
  ∃ payloadPart sigPart rest, token.splitOn '.' = payloadPart :: sigPart :: rest ∧
    JsText.decodeBase64Url payloadPart = p.bytes ∧ JsText.decodeBase64Url sigPart = pf.sign p.bytes

/-- A token has two parts, each of them the text of its bytes. -/
def Plain (token : JsText) : Prop :=
  ∃ payloadPart sigPart, token.splitOn '.' = [payloadPart, sigPart] ∧
    JsText.encodeBase64Url (JsText.decodeBase64Url payloadPart) = payloadPart ∧
    JsText.encodeBase64Url (JsText.decodeBase64Url sigPart) = sigPart

/-- What is said of the platform: Ed25519 is correct, its signatures have 64 bytes, a signature that a
token shows was made by the gateway, and JSON is parsed to the value that it prints. -/
structure Trusted (pf : Platform) (issued : List DomainNoticePayload) (token : JsText) : Prop where
  correct : ∀ p ∈ issued, pf.verify (pf.sign p.bytes) p.bytes = some true
  length : ∀ p ∈ issued, (pf.sign p.bytes).length = 64
  unforged : ∀ payloadPart sigPart rest, token.splitOn '.' = payloadPart :: sigPart :: rest →
    pf.verify (JsText.decodeBase64Url sigPart) (JsText.decodeBase64Url payloadPart) = some true →
      ∃ p ∈ issued, JsText.decodeBase64Url payloadPart = p.bytes ∧
        JsText.decodeBase64Url sigPart = pf.sign p.bytes
  parsed : ∀ p ∈ issued, pf.parse p.toJson.stringify = some p.toJson

section Tokens

variable {pf : Platform} {issued : List DomainNoticePayload} {token : JsText} {now : ℤ}
  {p q : DomainNoticePayload}

theorem numeric_toJson (p : DomainNoticePayload) : p.toJson.numeric := by
  unfold DomainNoticePayload.toJson
  rw [Json.numeric_obj]
  simp only [List.forall_mem_cons, List.not_mem_nil, false_imp_iff, implies_true, and_true]
  refine ⟨rfl, rfl, rfl, rfl, ?_, rfl, rfl⟩
  rw [Json.numeric_arr]
  intro j hj
  obtain ⟨code, -, rfl⟩ := List.mem_map.1 hj
  rfl

theorem text_inj {phase phase' : DomainContinuityPhase} (h : phase.text.toList = phase'.text.toList) :
    phase = phase' := by
  cases phase <;> cases phase' <;> first | rfl | exact absurd h (by decide)

theorem toJson_inj (h : p.toJson = q.toJson) : p = q := by
  obtain ⟨domain, phase, issuedAt, expiresAt, reasonCodes, policyVersion, nonce⟩ := p
  obtain ⟨domain', phase', issuedAt', expiresAt', reasonCodes', policyVersion', nonce'⟩ := q
  simp only [DomainNoticePayload.toJson, Json.obj.injEq, List.cons.injEq, Prod.mk.injEq,
    Json.str.injEq, Json.arr.injEq, true_and, and_true] at h
  obtain ⟨rfl, hphase, rfl, rfl, hcodes, rfl, rfl⟩ := h
  rw [text_inj hphase, List.map_injective_iff.2 (fun s t hst => Json.str.inj hst) hcodes]

/-- A notice is determined by its bytes. -/
theorem bytes_inj (h : p.bytes = q.bytes) : p = q :=
  toJson_inj (Json.stringify_inj (numeric_toJson p) (numeric_toJson q) (JsText.utf8_inj h))

theorem bytes_ne_nil (p : DomainNoticePayload) : p.bytes ≠ [] := by
  intro h
  have hnil : p.toJson.stringify = [] := JsText.utf8_inj h
  cases hnil

/-- The parts of the token of a notice. -/
theorem splitOn_createNoticeToken (pf : Platform) (p : DomainNoticePayload) :
    (createNoticeToken pf p).splitOn '.' =
      [JsText.encodeBase64Url p.bytes, JsText.encodeBase64Url (pf.sign p.bytes)] := by
  have hjoin : createNoticeToken pf p = ['.'].intercalate
      [JsText.encodeBase64Url p.bytes, JsText.encodeBase64Url (pf.sign p.bytes)] := by
    simp [createNoticeToken, List.intercalate]
  rw [hjoin]
  refine List.splitOn_intercalate '.' (fun part hpart hpoint => ?_) (List.cons_ne_nil _ _)
  rcases List.mem_cons.1 hpart with rfl | hpart
  · exact absurd (JsText.isBase64Url_of_mem hpoint).1 (by decide)
  · rw [List.mem_singleton.1 hpart] at hpoint
    exact absurd (JsText.isBase64Url_of_mem hpoint).1 (by decide)

/-- The token of a notice carries it. -/
theorem carries_createNoticeToken (pf : Platform) (p : DomainNoticePayload) :
    Carries pf (createNoticeToken pf p) p :=
  ⟨_, _, [], splitOn_createNoticeToken pf p, JsText.decodeBase64Url_encodeBase64Url _,
    JsText.decodeBase64Url_encodeBase64Url _⟩

/-- A token carries one notice. -/
theorem Carries.eq (h : Carries pf token p) (h' : Carries pf token q) : p = q := by
  obtain ⟨payloadPart, sigPart, rest, hparts, hbytes, -⟩ := h
  obtain ⟨payloadPart', sigPart', rest', hparts', hbytes', -⟩ := h'
  obtain ⟨rfl, -⟩ := List.cons.inj (hparts.symm.trans hparts')
  exact bytes_inj (hbytes.symm.trans hbytes')

/-- **A token that carries an issued notice** is valid for it. -/
theorem Carries.verify {other : JsText} (h : Carries pf token p) (ht : Trusted pf issued other)
    (hp : p ∈ issued) : verifyNoticeToken pf token = some p.toJson := by
  obtain ⟨payloadPart, sigPart, rest, hparts, hbytes, hsig⟩ := h
  have hpayload : payloadPart ≠ [] := by
    rintro rfl
    exact bytes_ne_nil p hbytes.symm
  have hsigned : sigPart ≠ [] := by
    rintro rfl
    have hlength := ht.length p hp
    rw [← hsig] at hlength
    cases hlength
  unfold verifyNoticeToken
  rw [hparts]
  dsimp only
  rw [if_neg (not_or.2 ⟨hpayload, hsigned⟩), hbytes, hsig, if_pos (ht.correct p hp),
    DomainNoticePayload.bytes, TextDecoder.decodeFrom_utf8, ht.parsed p hp]

/-- **A valid token** carries a notice that was issued. -/
theorem carries_of_isSome (ht : Trusted pf issued token) (h : (verifyNoticeToken pf token).isSome) :
    ∃ p ∈ issued, Carries pf token p := by
  unfold verifyNoticeToken at h
  split at h
  · next payloadPart sigPart rest hparts =>
    split at h
    · cases h
    · dsimp only at h
      split at h
      · next hverify =>
        obtain ⟨p, hp, hbytes, hsig⟩ := ht.unforged payloadPart sigPart rest hparts hverify
        exact ⟨p, hp, payloadPart, sigPart, rest, hparts, hbytes, hsig⟩
      · cases h
  · cases h

/-- A plain token is that of the notice that it carries. -/
theorem Carries.eq_createNoticeToken (h : Carries pf token p) (hplain : Plain token) :
    token = createNoticeToken pf p := by
  obtain ⟨payloadPart, sigPart, rest, hparts, hbytes, hsig⟩ := h
  obtain ⟨payloadPart', sigPart', htwo, hpayload, hsigned⟩ := hplain
  obtain ⟨rfl, hrest⟩ := List.cons.inj (hparts.symm.trans htwo)
  obtain ⟨rfl, rfl⟩ := List.cons.inj hrest
  have hjoin : ['.'].intercalate (token.splitOn '.') = token := List.intercalate_splitOn '.'
  rw [htwo] at hjoin
  rw [← hjoin, ← hpayload, ← hsigned, hbytes, hsig]
  simp [createNoticeToken, List.intercalate]

/-- The token of a notice is plain. -/
theorem plain_createNoticeToken (pf : Platform) (p : DomainNoticePayload) :
    Plain (createNoticeToken pf p) := by
  refine ⟨_, _, splitOn_createNoticeToken pf p, ?_, ?_⟩
  · rw [JsText.decodeBase64Url_encodeBase64Url]
  · rw [JsText.decodeBase64Url_encodeBase64Url]

/-- **Exactly when tokens are those of the gateway.** The notice law holds of a token and a time if and
only if the token, if it carries an issued notice, has two parts, written as the gateway writes them,
and the notice has not expired. -/
theorem noticeLaw_iff (pf : Platform) (issued : List DomainNoticePayload) (token : JsText) (now : ℤ)
    (ht : Trusted pf issued token) :
    NoticeLaw pf issued token now ↔
      ∀ p ∈ issued, Carries pf token p → Plain token ∧ NotPast pf now p := by
  constructor
  · intro h p hp hcarries
    obtain ⟨q, -, rfl, hnow⟩ := h.sound (by rw [hcarries.verify ht hp]; rfl)
    obtain rfl := hcarries.eq (carries_createNoticeToken pf q)
    exact ⟨plain_createNoticeToken pf p, hnow⟩
  · intro h
    refine ⟨fun hvalid => ?_, fun p hp _ => (carries_createNoticeToken pf p).verify ht hp⟩
    obtain ⟨p, hp, hcarries⟩ := carries_of_isSome ht hvalid
    obtain ⟨hplain, hnow⟩ := h p hp hcarries
    exact ⟨p, hp, hcarries.eq_createNoticeToken hplain, hnow⟩

end Tokens

/-! ## A notice -/

def exampleNotice : DomainNoticePayload where
  domain := "example.com".toList
  phase := .aSoftWarning
  issuedAt := "2026-02-19T00:00:00Z".toList
  expiresAt := "2026-02-19T00:15:00Z".toList
  reasonCodes := ["RENEWAL_DUE_SOON".toList]
  policyVersion := "mvp-2026-02".toList
  nonce := "abcd1234".toList

def exampleSignature : List UInt8 :=
  [9, 212, 125, 173, 137, 160, 59, 77, 49, 122, 181, 49, 243, 197, 245, 14, 190, 116, 166, 232, 189, 56,
    8, 207, 55, 94, 101, 21, 229, 163, 58, 213, 67, 29, 133, 19, 155, 240, 13, 100, 241, 96, 254, 81, 227,
    220, 205, 141, 72, 78, 85, 104, 54, 143, 144, 159, 108, 173, 105, 173, 230, 152, 8, 11]

/-- The notice is signed, parsed and dated. -/
def examplePlatform : Platform where
  sign message := if message = exampleNotice.bytes then exampleSignature else List.replicate 64 0
  verify sig message :=
    if sig.length = 64 then some (sig = exampleSignature ∧ message = exampleNotice.bytes) else none
  parse t := if t = exampleNotice.toJson.stringify then some exampleNotice.toJson else none
  dateParse t := if t = exampleNotice.expiresAt then some 1771460100000 else none

theorem sign_exampleNotice : examplePlatform.sign exampleNotice.bytes = exampleSignature := by
  simp only [examplePlatform, if_true]

theorem dateParse_exampleNotice :
    examplePlatform.dateParse exampleNotice.expiresAt = some 1771460100000 := by
  simp only [examplePlatform, if_true]

theorem exampleNotice_trusted (token : JsText) : Trusted examplePlatform [exampleNotice] token where
  correct p hp := by
    obtain rfl := List.mem_singleton.1 hp
    decide +kernel
  length p hp := by
    obtain rfl := List.mem_singleton.1 hp
    rw [sign_exampleNotice]
    rfl
  unforged payloadPart sigPart rest _ hverify := by
    simp only [examplePlatform] at hverify
    split at hverify
    · obtain ⟨hsig, hbytes⟩ := of_decide_eq_true (Option.some.inj hverify)
      exact ⟨exampleNotice, List.mem_singleton_self _, hbytes, hsig.trans sign_exampleNotice.symm⟩
    · cases hverify
  parsed p hp := by
    obtain rfl := List.mem_singleton.1 hp
    simp only [examplePlatform, if_true]

/-- Until it expires, the token is valid, and it is the gateway's. -/
theorem exampleNotice_law : NoticeLaw examplePlatform [exampleNotice]
    (createNoticeToken examplePlatform exampleNotice) 1771460100000 := by
  refine (noticeLaw_iff examplePlatform _ _ _ (exampleNotice_trusted _)).2 fun p hp _ => ?_
  obtain rfl := List.mem_singleton.1 hp
  exact ⟨plain_createNoticeToken _ _, 1771460100000, dateParse_exampleNotice, le_rfl⟩

/-- With another part behind it the token is valid as well, and so it is when the notice has expired. -/
theorem exampleNotice_no_law :
    ¬NoticeLaw examplePlatform [exampleNotice]
        (createNoticeToken examplePlatform exampleNotice ++ ".x".toList) 0 ∧
      ¬NoticeLaw examplePlatform [exampleNotice] (createNoticeToken examplePlatform exampleNotice)
        1771460100001 := by
  constructor
  · intro h
    obtain ⟨p, hp, htoken, -⟩ := h.sound (by decide +kernel)
    obtain rfl := List.mem_singleton.1 hp
    exact absurd (congrArg List.length htoken) (by simp)
  · intro h
    obtain ⟨p, hp, -, t, ht, hnow⟩ := h.sound (by decide +kernel)
    obtain rfl := List.mem_singleton.1 hp
    obtain rfl := Option.some.inj (dateParse_exampleNotice.symm.trans ht)
    exact absurd hnow (by decide)

end Ddns.Gateway.NoticeToken
