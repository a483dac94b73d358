import Ddns.Coordinator.Server

/-!
# Sessions, challenges and the sequence of requests

The routes that open sessions, audit challenges and verifications, and `serve`, which answers a
request from its start to its end. A request carries the clock reads, the random texts and the
answers of other services that its handler gets.
-/

namespace Ddns.Coordinator

open Comments (HoldPayload HoldTimes SubmitPayload)

/-! ## POST /auth/challenge and POST /auth/verify -/

inductive Chain where
  | evm
  | solana
  deriving DecidableEq

def Chain.text : Chain → JsText
  | .evm => ['e', 'v', 'm']
  | .solana => ['s', 'o', 'l', 'a', 'n', 'a']

def inferChain (rt : ServerRuntime) (config : ServerConfig) (value : JsText) : Option Chain :=
  if config.authChain = Chain.evm.text then some .evm
  else if config.authChain = Chain.solana.text then some .solana
  else if isEvmAddress value then some .evm
  else if isSolPubkey rt value then some .solana
  else none

/-- The chain of a wallet, as far as the configuration admits it. -/
def checkChain (rt : ServerRuntime) (config : ServerConfig) (wallet : JsText) :
    Except ServerError Chain :=
  match inferChain rt config wallet with
  | none => .error .invalidWalletFormat
  | some chain =>
    if config.authChain ≠ ['a', 'u', 't', 'o'] ∧ chain.text ≠ config.authChain then
      .error .authChainMismatch
    else .ok chain

def postAuthChallenge (rt : ServerRuntime) (config : ServerConfig) (s : Server)
    (wallet : Option JsText) (random : JsText) (now : ℚ) : Server × ServerAnswer :=
  match wallet.filter (· ≠ []) with
  | none => (s, .refused .missingFields)
  | some wallet =>
    match checkChain rt config wallet with
    | .error error => (s, .refused error)
    | .ok _ =>
      let challenge := ⟨random, (JsNum.fin now).add config.sessionTtlMs⟩
      ({ s with authChallenges := s.authChallenges.set wallet challenge }, .issued)

structure LoginBody where
  wallet : Option JsText
  signature : Option JsText
  evmAddress : Option JsText
  evmSignature : Option JsText

def loginMessage (challenge : JsText) : JsText :=
  ['l', 'o', 'g', 'i', 'n', '\n'] ++ challenge

def verifyEvmSignature (rt : ServerRuntime) (address message signature : JsText) : Bool :=
  (rt.verifyMessage message signature).any fun recovered =>
    rt.toLowerCase recovered = rt.toLowerCase address

/-- It throws for a key that is not of base 58 and for a key or a signature of a wrong length. -/
def verifySolSignature (rt : ServerRuntime) (pubkey message signature : JsText) : Option Bool := do
  let pub ← rt.bs58Decode pubkey
  let sig := (rt.bs58Decode signature).getD (rt.base64ToBytes signature)
  rt.naclVerify message.utf8 sig pub

/-- A cached answer is used until it expires; `owned` is the answer of the chain. -/
def passportOwns (s : Server) (evmAddress : JsText) (owned : Bool) (now : ℚ) : Server × Bool :=
  if !isEvmAddress evmAddress then (s, false)
  else
    match s.passportCache.get evmAddress with
    | some cached =>
      if now < cached.expiresAt then (s, cached.ok)
      else
        ({ s with passportCache := s.passportCache.set evmAddress ⟨owned, now + 90000⟩ }, owned)
    | none => ({ s with passportCache := s.passportCache.set evmAddress ⟨owned, now + 90000⟩ }, owned)

/-- The signatures of a login, and the address whose passport counts, if one does. -/
def checkLogin (rt : ServerRuntime) (config : ServerConfig) (s : Server) (chain : Chain)
    (body : LoginBody) (wallet signature challenge : JsText) :
    Except (Option ServerError) (Option JsText) :=
  match chain with
  | .evm =>
    if verifyEvmSignature rt wallet (loginMessage challenge) signature then
      .ok (if config.passportEnabled then some wallet else none)
    else .error (some .invalidSignature)
  | .solana =>
    match verifySolSignature rt wallet (loginMessage challenge) signature with
    | none => .error none
    | some false => .error (some .invalidSignature)
    | some true =>
      if config.passportEnabled || (body.evmAddress.filter (· ≠ [])).isSome then
        match body.evmAddress.filter (· ≠ []), body.evmSignature.filter (· ≠ []) with
        | some evmAddress, some evmSignature =>
          if !isEvmAddress evmAddress then .error (some .invalidEvmAddress)
          else if !verifyEvmSignature rt evmAddress (loginMessage challenge) evmSignature then
            .error (some .invalidEvmSignature)
          else .ok (if config.passportEnabled then some evmAddress else none)
        | _, _ => .error (some .missingEvmBinding)
      else if wallet ∈ s.credits.passports then .ok none
      else .error (some .passportRequired)

/-- The session of the wallet replaces its challenge. -/
def openSession (config : ServerConfig) (s : Server) (wallet random : JsText) (now : ℚ) :
    Server × ServerAnswer :=
  let session := ⟨wallet, (JsNum.fin now).add config.sessionTtlMs⟩
  ({ s with
      authChallenges := s.authChallenges.erase wallet
      sessions := s.sessions.set random session },
    .session random)

def postAuthVerify (rt : ServerRuntime) (config : ServerConfig) (s : Server) (body : LoginBody)
    (owned : Bool) (random : JsText) (now : ℚ) : Server × ServerAnswer :=
  match body.wallet.filter (· ≠ []), body.signature.filter (· ≠ []) with
  | some wallet, some signature =>
    match checkChain rt config wallet with
    | .error error => (s, .refused error)
    | .ok chain =>
      match s.authChallenges.get wallet with
      | none => (s, .refused .challengeExpired)
      | some challenge =>
        if challenge.expiresAt.lt (.fin now) then (s, .refused .challengeExpired)
        else
          match checkLogin rt config s chain body wallet signature challenge.challenge with
          | .error error => (s, stopped error)
          | .ok none => openSession config s wallet random now
          | .ok (some evmAddress) =>
            match passportOwns s evmAddress owned now with
            | (s, false) => (s, .refused .passportRequired)
            | (s, true) => openSession config s wallet random now
  | _, _ => (s, .refused .missingFields)

/-! ## POST /audits/challenge and POST /node/verify -/

def postAuditChallenge (config : ServerConfig) (s : Server) (token : Option JsText)
    (wallet chunkHash : Option JsText) (random : JsText) (now : ℚ) : Server × ServerAnswer :=
  if config.adminToken = [] ∨ token ≠ some config.adminToken then (s, .refused .unauthorized)
  else
    match wallet.filter (· ≠ []), chunkHash.filter (· ≠ []) with
    | some wallet, some chunkHash =>
      ({ s with credits := createChallenge s.credits random wallet chunkHash (.fin 300000) now },
        .issued)
    | _, _ => (s, .refused .missingFields)

/-- `verified` is the site of a body whose proof and signature hold, which no state decides. -/
def postNodeVerify (config : ServerConfig) (s : Server) (token : Option JsText)
    (verified : Option JsText) (random : JsText) (now : ℚ) : Server × ServerAnswer :=
  if !authorized config token then (s, .refused .unauthorized)
  else
    match verified with
    | none => (s, .refused .missingFields)
    | some siteId =>
      ({ s with nodeVerifications := s.nodeVerifications.set random ⟨siteId, now + 600000⟩ },
        .issued)

/-! ## Requests -/

inductive Request where
  | authChallenge (wallet : Option JsText) (random : JsText) (now : ℚ)
  | authVerify (body : LoginBody) (owned : Bool) (random : JsText) (now : ℚ)
  | spend (token : Option JsText) (amount : Option JsNum) (now : ℚ)
  | receipt (envelope : ReceiptEnvelope) (now : ℚ) (times : Times)
  | hold (token : Option JsText) (body : HoldPayload) (times : HoldTimes) (random : JsText)
  | submit (token : Option JsText) (body : SubmitPayload) (now : ℚ)
  | finalize (token : Option JsText) (body : FinalizeBody) (times : LoggedTimes)
  | nodeVerify (token : Option JsText) (verified : Option JsText) (random : JsText) (now : ℚ)
  | nodeReceipt (token : Option JsText) (body : NodeReceiptBody) (times : LoggedTimes)
  | auditChallenge (token : Option JsText) (wallet chunkHash : Option JsText) (random : JsText)
      (now : ℚ)

/-- One request after the other; `snapshot` is the registry on disk. -/
def serve (rt : ServerRuntime) (config : ServerConfig) (snapshot : Snapshot) (s : Server) :
    Request → Server × ServerAnswer
  | .authChallenge wallet random now => postAuthChallenge rt config s wallet random now
  | .authVerify body owned random now => postAuthVerify rt config s body owned random now
  | .spend token amount now => postSpend s token amount now
  | .receipt envelope now times => postReceipts rt config s envelope snapshot now times
  | .hold token body times random => postHold rt config s token body times random
  | .submit token body now => postSubmit config s token body now
  | .finalize token body times => postFinalize config s token body times
  | .nodeVerify token verified random now => postNodeVerify config s token verified random now
  | .nodeReceipt token body times => postNodeReceipts rt config s token body snapshot times
  | .auditChallenge token wallet chunkHash random now =>
    postAuditChallenge config s token wallet chunkHash random now

end Ddns.Coordinator
