import Ddns.Lib.Grouping
import Ddns.Lib.Js
import Mathlib.Data.Nat.Cast.Order.Ring

/-!
# Reading an account from several nodes

An account is read from several nodes at once (`fetchAccountMultiRpc`). Their answers are grouped by
the hash of the data, in the order in which they arrive, and the largest group wins if it has
`minAgree` members. Which of several largest groups comes first, and which text of the data a group
keeps, is a matter of the order. `readLaw_iff` says when it does not matter. A definition without
a docstring is the item of the source with the same words in its name.
-/

namespace Ddns.Attack

/-- The functions of the platform. Reading a value as a number or a text throws for some objects. -/
structure Platform where
  sha256Hex : List UInt8 → JsText
  base64Bytes : JsText → List UInt8
  number : Json → Except JsText JsNum
  text : Json → Except JsText JsText

/-- What a request comes to: no response, or a response with its body. -/
inductive Reply where
  | rejected (message : JsText)
  | response (status : ℕ) (body : Except JsText Json)

structure Evidence where
  url : JsText
  ok : Bool
  slot : Option JsNum
  dataHashHex : Option JsText
  err : Option JsText
  deriving DecidableEq

/-- A value of the map `groups`. -/
structure Group where
  urls : List JsText
  slot : JsNum
  dataBase64 : JsText
  deriving DecidableEq

inductive MultiRpcAccountResult where
  | ok (dataBase64 dataHashHex : JsText) (agreeingUrls : List JsText) (slot : JsNum)
  | failed (evidence : List Evidence) (disagreement : Bool)
  deriving DecidableEq

def hashHex (rt : Platform) (dataBase64 : JsText) : JsText :=
  '0' :: 'x' :: rt.sha256Hex (rt.base64Bytes dataBase64)

/-! ## One reply -/

def resultKey : JsText := ['r', 'e', 's', 'u', 'l', 't']

def contextKey : JsText := ['c', 'o', 'n', 't', 'e', 'x', 't']

def slotKey : JsText := ['s', 'l', 'o', 't']

def valueKey : JsText := ['v', 'a', 'l', 'u', 'e']

def dataKey : JsText := ['d', 'a', 't', 'a']

/-- The slot of a body, `0` if there is none. -/
def slotOf (rt : Platform) (json : Json) : Except JsText JsNum :=
  match (json.field resultKey).bind fun r => (r.field contextKey).bind (Json.field slotKey) with
  | none | some .null => .ok (.fin 0)
  | some slot => rt.number slot

/-- The data of a body, the empty text if there are none. -/
def dataOf (rt : Platform) (json : Json) : Except JsText JsText :=
  match (json.field resultKey).bind fun r => (r.field valueKey).bind (Json.field dataKey) with
  | some (.arr (first :: _)) => if first.truthy then rt.text first else .ok []
  | _ => .ok []

/-- The slot and the data of a reply, or the text of its error. -/
def Reply.read (rt : Platform) : Reply → Except JsText (JsNum × JsText)
  | .rejected message => .error message
  | .response status body =>
    if 200 ≤ status ∧ status ≤ 299 then
      body.bind fun json => (slotOf rt json).bind fun slot =>
        (dataOf rt json).map fun dataBase64 => (slot, dataBase64)
    else .error (['h', 't', 't', 'p', '_'] ++ Nat.toDigits 10 status)

/-! ## The replies as they arrive -/

/-- The evidence and the groups. -/
structure Tally where
  evidence : List Evidence
  groups : List (JsText × Group)
  deriving DecidableEq

/-- A node joins the group of its hash. -/
def addToGroups (groups : List (JsText × Group)) (dataHashHex url : JsText) (slot : JsNum)
    (dataBase64 : JsText) : List (JsText × Group) :=
  if ∃ g ∈ groups, g.1 = dataHashHex then
    groups.map fun g =>
      if g.1 = dataHashHex then (g.1, { g.2 with urls := g.2.urls ++ [url] }) else g
  else groups ++ [(dataHashHex, ⟨[url], slot, dataBase64⟩)]

/-- The reply of a node arrives. -/
def Tally.arrive (rt : Platform) (t : Tally) (url : JsText) (reply : Reply) : Tally :=
  match reply.read rt with
  | .error err => { t with evidence := t.evidence ++ [⟨url, false, none, none, some err⟩] }
  | .ok (slot, dataBase64) =>
    let dataHashHex := hashHex rt dataBase64
    { evidence := t.evidence ++ [⟨url, true, some slot, some dataHashHex, none⟩]
      groups := addToGroups t.groups dataHashHex url slot dataBase64 }

/-- The first of the largest groups. -/
def bestOf (groups : List (JsText × Group)) : Option (JsText × Group) :=
  groups.foldl (fun best g =>
    match best with
    | none => some g
    | some b => if b.2.urls.length < g.2.urls.length then some g else some b) none

/-- The evidence and the groups when the nodes in `arrivals` have replied, each with its reply. -/
def tallyOf (rt : Platform) (replies : JsText → Reply) (arrivals : List JsText) : Tally :=
  arrivals.foldl (fun (t : Tally) url => t.arrive rt url (replies url)) ⟨[], []⟩

/-- The replies arrive in the order of `arrivals`. -/
def fetchAccountMultiRpc (rt : Platform) (minAgree : JsNum) (replies : JsText → Reply)
    (arrivals : List JsText) : MultiRpcAccountResult :=
  let t := tallyOf rt replies arrivals
  let disagreement : Bool := 1 < t.groups.length
  match bestOf t.groups with
  | none => .failed t.evidence disagreement
  | some (dataHashHex, g) =>
    if JsNum.lt (.fin g.urls.length) minAgree then .failed t.evidence disagreement
    else .ok g.dataBase64 dataHashHex g.urls g.slot

/-! ## The law -/

/-- The hash and the data of a result that is ok. -/
def MultiRpcAccountResult.account : MultiRpcAccountResult → Option (JsText × JsText)
  | .ok dataBase64 dataHashHex _ _ => some (dataHashHex, dataBase64)
  | .failed _ _ => none

/-- The nodes that return these data. -/
def returning (rt : Platform) (replies : JsText → Reply) (urls : List JsText)
    (dataBase64 : JsText) : List JsText :=
  urls.filter fun url => ((replies url).read rt).toOption.map Prod.snd = some dataBase64

/-- The nodes that return data of this hash. -/
def hashing (rt : Platform) (replies : JsText → Reply) (urls : List JsText)
    (dataHashHex : JsText) : List JsText :=
  urls.filter fun url =>
    ((replies url).read rt).toOption.map (fun r => hashHex rt r.2) = some dataHashHex

/-- **The law of a read**: its result is the same in every order of arrival, and data of a result
that is ok are returned by `minAgree` nodes, and by no fewer than any other data. -/
structure ReadLaw (rt : Platform) (minAgree : JsNum) (replies : JsText → Reply)
    (urls : List JsText) : Prop where
  order : ∀ arrivals arrivals', arrivals.Perm urls → arrivals'.Perm urls →
    (fetchAccountMultiRpc rt minAgree replies arrivals).account =
      (fetchAccountMultiRpc rt minAgree replies arrivals').account
  agreed : ∀ arrivals dataHashHex dataBase64, arrivals.Perm urls →
    (fetchAccountMultiRpc rt minAgree replies arrivals).account =
        some (dataHashHex, dataBase64) →
      dataHashHex = hashHex rt dataBase64 ∧
      minAgree.le (.fin (returning rt replies urls dataBase64).length) = true ∧
      ∀ other, (returning rt replies urls other).length ≤
        (returning rt replies urls dataBase64).length

/-- One hash is returned by more nodes than every other, and with one text only. -/
structure Clear (rt : Platform) (replies : JsText → Reply) (urls : List JsText)
    (dataBase64 : JsText) : Prop where
  most : ∀ other, other ≠ hashHex rt dataBase64 → (hashing rt replies urls other).length <
    (hashing rt replies urls (hashHex rt dataBase64)).length
  same : ∀ url ∈ hashing rt replies urls (hashHex rt dataBase64),
    url ∈ returning rt replies urls dataBase64

/-- No hash is returned by `minAgree` nodes, or the read is clear. -/
def Decided (rt : Platform) (minAgree : JsNum) (replies : JsText → Reply) (urls : List JsText) :
    Prop :=
  (∀ dataHashHex, JsNum.lt (.fin (hashing rt replies urls dataHashHex).length) minAgree = true) ∨
  ∃ dataBase64, Clear rt replies urls dataBase64

/-! ## The groups of the answers -/

/-- What a node answers. -/
structure Answer where
  url : JsText
  slot : JsNum
  dataBase64 : JsText

/-- The group of some answers: the first one gives the slot and the data. -/
def Group.of : List Answer → Group
  | [] => ⟨[], .fin 0, []⟩
  | a :: as => ⟨a.url :: as.map Answer.url, a.slot, a.dataBase64⟩

/-- The hash of an answer. -/
def Answer.hash (rt : Platform) (a : Answer) : JsText := hashHex rt a.dataBase64

/-- The answer of a node, if it gives one. -/
def answerOf (rt : Platform) (replies : JsText → Reply) (url : JsText) : Option Answer :=
  ((replies url).read rt).toOption.map fun r => ⟨url, r.1, r.2⟩

/-- The answers of some nodes. -/
def answersOf (rt : Platform) (replies : JsText → Reply) (urls : List JsText) : List Answer :=
  urls.filterMap (answerOf rt replies)

/-- The groups hold the answers by their hashes. -/
def summary (g : JsText × List Answer) : JsText × Group := (g.1, Group.of g.2)

section Reads

variable {rt : Platform} {minAgree : JsNum} {replies : JsText → Reply}
  {urls arrivals : List JsText} {url dataHashHex dataBase64 : JsText} {g : Group}
  {answers : List Answer}

theorem Group.of_urls (as : List Answer) : (Group.of as).urls = as.map Answer.url := by
  cases as <;> rfl

/-- An answer more changes the nodes of a group only. -/
theorem Group.of_concat {as : List Answer} (h : as ≠ []) (a : Answer) :
    Group.of (as ++ [a]) = { Group.of as with urls := (Group.of as).urls ++ [a.url] } := by
  cases as with
  | nil => exact absurd rfl h
  | cons b as => simp [Group.of]

theorem addToGroups_summary {gs : List (JsText × List Answer)} (hne : ∀ g ∈ gs, g.2 ≠ [])
    (a : Answer) :
    addToGroups (gs.map summary) (a.hash rt) a.url a.slot a.dataBase64 =
      (Grouping.add (Answer.hash rt) gs a).map summary := by
  have hold : (∃ g ∈ gs.map summary, g.1 = a.hash rt) ↔ ∃ g ∈ gs, g.1 = a.hash rt := by
    simp [summary]
  unfold addToGroups Grouping.add
  simp only [hold]
  split
  · rw [List.map_map, List.map_map]
    refine List.map_congr_left fun g hg => ?_
    by_cases hkey : g.1 = a.hash rt
    · simp [summary, hkey, Group.of_concat (hne g hg)]
    · simp [summary, hkey]
  · rw [List.map_append]
    rfl

theorem ne_nil_of_mem_group {g : JsText × List Answer}
    (hg : g ∈ Grouping.group (Answer.hash rt) answers) : g.2 ≠ [] := by
  obtain ⟨hkey, hmembers⟩ := Grouping.mem_group.1 hg
  obtain ⟨a, ha, hhash⟩ := List.mem_map.1 hkey
  rw [hmembers]
  exact List.ne_nil_of_mem (Grouping.mem_ofKey.2 ⟨ha, hhash⟩)

theorem groups_tallyOf (rt : Platform) (replies : JsText → Reply) (arrivals : List JsText) :
    (tallyOf rt replies arrivals).groups =
      (Grouping.group (Answer.hash rt) (answersOf rt replies arrivals)).map summary := by
  induction arrivals using List.reverseRecOn with
  | nil => rfl
  | append_singleton arrivals url ih =>
    have hstep : tallyOf rt replies (arrivals ++ [url]) =
        (tallyOf rt replies arrivals).arrive rt url (replies url) := by
      simp [tallyOf]
    have hanswers : answersOf rt replies (arrivals ++ [url]) =
        answersOf rt replies arrivals ++ (answerOf rt replies url).toList := by
      simp only [answersOf, List.filterMap_append, List.filterMap_cons, List.filterMap_nil]
      cases answerOf rt replies url <;> rfl
    rw [hstep, hanswers, Tally.arrive, answerOf]
    cases (replies url).read rt with
    | error err =>
      rw [ih]
      exact congrArg _ (congrArg _ (List.append_nil _).symm)
    | ok r =>
      rw [show (Except.ok r : Except JsText (JsNum × JsText)).toOption = some r from rfl,
        Option.map_some, Option.toList_some, Grouping.group_concat, ← addToGroups_summary
        (fun g hg => ne_nil_of_mem_group hg), ← ih]
      rfl

/-- The nodes of a hash are those whose answers have it. -/
theorem ofKey_answersOf (rt : Platform) (replies : JsText → Reply) (urls : List JsText)
    (dataHashHex : JsText) :
    (Grouping.ofKey (Answer.hash rt) dataHashHex (answersOf rt replies urls)).map Answer.url =
      hashing rt replies urls dataHashHex := by
  induction urls with
  | nil => rfl
  | cons url urls ih =>
    have hstep : answersOf rt replies (url :: urls) =
        (answerOf rt replies url).toList ++ answersOf rt replies urls := by
      unfold answersOf
      cases h : answerOf rt replies url <;> simp [h]
    have hrest : hashing rt replies (url :: urls) dataHashHex =
        hashing rt replies [url] dataHashHex ++ hashing rt replies urls dataHashHex :=
      List.filter_append [url] urls
    rw [hstep, Grouping.ofKey_append, List.map_append, ih, hrest, answerOf]
    refine congrArg (· ++ _) ?_
    cases hread : (replies url).read rt with
    | error err => simp [hashing, hread, Except.toOption, Grouping.ofKey]
    | ok r =>
      by_cases hhash : hashHex rt r.2 = dataHashHex <;>
        simp [hashing, hread, Except.toOption, Grouping.ofKey, Answer.hash, hhash]

/-! ## The groups of a read -/

/-- What the groups are. -/
theorem mem_groups (h : (dataHashHex, g) ∈ (tallyOf rt replies arrivals).groups) :
    g.urls = hashing rt replies arrivals dataHashHex ∧
      ∃ url ∈ g.urls, ∃ slot, (replies url).read rt = .ok (slot, g.dataBase64) ∧
        hashHex rt g.dataBase64 = dataHashHex := by
  rw [groups_tallyOf] at h
  obtain ⟨⟨k, members⟩, hmem, heq⟩ := List.mem_map.1 h
  obtain ⟨rfl, rfl⟩ := Prod.mk.inj heq
  obtain ⟨hkey, rfl⟩ := Grouping.mem_group.1 hmem
  refine ⟨by rw [Group.of_urls]; exact ofKey_answersOf rt replies arrivals _, ?_⟩
  cases has : Grouping.ofKey (Answer.hash rt) k (answersOf rt replies arrivals) with
  | nil => exact absurd has (ne_nil_of_mem_group hmem)
  | cons a as =>
    have ha : a ∈ answersOf rt replies arrivals ∧ a.hash rt = k :=
      Grouping.mem_ofKey.1 (by rw [has]; exact List.mem_cons_self)
    obtain ⟨url, -, hanswer⟩ := List.mem_filterMap.1 ha.1
    refine ⟨a.url, List.mem_cons_self, a.slot, ?_, ha.2⟩
    unfold answerOf at hanswer
    cases hread : (replies url).read rt with
    | error err =>
      rw [hread] at hanswer
      cases hanswer
    | ok r =>
      rw [hread] at hanswer
      obtain rfl := Option.some.inj hanswer
      exact hread

/-- Every hash that is returned has a group. -/
theorem exists_group (h : hashing rt replies arrivals dataHashHex ≠ []) :
    ∃ g, (dataHashHex, g) ∈ (tallyOf rt replies arrivals).groups := by
  rw [groups_tallyOf]
  refine ⟨_, List.mem_map.2 ⟨(dataHashHex, _), Grouping.mem_group.2 ⟨?_, rfl⟩, rfl⟩⟩
  by_contra hkey
  refine h ?_
  rw [← ofKey_answersOf, Grouping.ofKey_eq_nil hkey]
  rfl

/-- The node that answers first begins the first group. -/
theorem head_groups {slot : JsNum} (h : (replies url).read rt = .ok (slot, dataBase64)) :
    ∃ g, (tallyOf rt replies (url :: arrivals)).groups.head? = some (hashHex rt dataBase64, g) ∧
      g.dataBase64 = dataBase64 := by
  have hanswers : answersOf rt replies (url :: arrivals) =
      ⟨url, slot, dataBase64⟩ :: answersOf rt replies arrivals := by
    refine List.filterMap_cons_some ?_
    rw [answerOf, h]
    rfl
  rw [groups_tallyOf, hanswers, List.head?_map, Grouping.head?_group]
  refine ⟨_, rfl, ?_⟩
  rw [Grouping.ofKey, List.filter_cons_of_pos (by simp)]
  rfl

theorem bestOf_eq_argmax (groups : List (JsText × Group)) :
    bestOf groups = groups.argmax fun g => g.2.urls.length := by
  refine congrArg (fun f => groups.foldl f none) (funext fun best => funext fun g => ?_)
  cases best <;> rfl

/-- Nodes that reply in another order. -/
theorem hashing_perm (h : arrivals.Perm urls) :
    (hashing rt replies arrivals dataHashHex).length =
      (hashing rt replies urls dataHashHex).length :=
  (h.filter _).length_eq

/-- The result of a read: the data of a largest group that has enough members. -/
theorem account_eq_some : (fetchAccountMultiRpc rt minAgree replies arrivals).account =
      some (dataHashHex, dataBase64) ↔
    ∃ g, bestOf (tallyOf rt replies arrivals).groups = some (dataHashHex, g) ∧
      JsNum.lt (.fin g.urls.length) minAgree = false ∧ g.dataBase64 = dataBase64 := by
  simp only [fetchAccountMultiRpc]
  cases bestOf (tallyOf rt replies arrivals).groups with
  | none => simp [MultiRpcAccountResult.account]
  | some b =>
    obtain ⟨hash, g⟩ := b
    cases hlt : JsNum.lt (.fin g.urls.length) minAgree with
    | true =>
      simp only [MultiRpcAccountResult.account, hlt, if_true, reduceCtorEq, false_iff]
      rintro ⟨g', hg', hlt', -⟩
      cases hg'
      rw [hlt] at hlt'
      cases hlt'
    | false =>
      simp only [MultiRpcAccountResult.account, hlt, Bool.false_eq_true, if_false,
        Option.some.injEq, Prod.mk.injEq]
      constructor
      · rintro ⟨rfl, rfl⟩
        exact ⟨g, ⟨rfl, rfl⟩, hlt, rfl⟩
      · rintro ⟨g', ⟨rfl, rfl⟩, -, rfl⟩
        exact ⟨rfl, rfl⟩

theorem mem_hashing : url ∈ hashing rt replies urls dataHashHex ↔
    url ∈ urls ∧ ∃ slot data, (replies url).read rt = .ok (slot, data) ∧
      hashHex rt data = dataHashHex := by
  rw [hashing, List.mem_filter]
  cases (replies url).read rt with
  | error err => simp [Except.toOption]
  | ok r => simp [Except.toOption, Prod.ext_iff]

theorem mem_returning : url ∈ returning rt replies urls dataBase64 ↔
    url ∈ urls ∧ ∃ slot, (replies url).read rt = .ok (slot, dataBase64) := by
  rw [returning, List.mem_filter]
  cases (replies url).read rt with
  | error err => simp [Except.toOption]
  | ok r => simp [Except.toOption, Prod.ext_iff]

/-- Equal data have equal hashes. -/
theorem returning_le (rt : Platform) (replies : JsText → Reply) (urls : List JsText)
    (dataBase64 : JsText) : (returning rt replies urls dataBase64).length ≤
      (hashing rt replies urls (hashHex rt dataBase64)).length := by
  refine (List.monotone_filter_right urls fun url h => ?_).length_le
  have hdata : ((replies url).read rt).toOption.map Prod.snd = some dataBase64 :=
    of_decide_eq_true h
  obtain ⟨r, hread, rfl⟩ := Option.map_eq_some_iff.1 hdata
  rw [hread]
  exact decide_eq_true rfl

/-- The best group is one of the largest. -/
theorem bestOf_spec (h : bestOf (tallyOf rt replies arrivals).groups = some (dataHashHex, g)) :
    (dataHashHex, g) ∈ (tallyOf rt replies arrivals).groups ∧
      ∀ other, (hashing rt replies arrivals other).length ≤ g.urls.length := by
  rw [bestOf_eq_argmax] at h
  refine ⟨List.argmax_mem h, fun other => ?_⟩
  by_cases hother : hashing rt replies arrivals other = []
  · rw [hother]
    exact Nat.zero_le _
  · obtain ⟨g', hg'⟩ := exists_group hother
    have hle := List.le_of_mem_argmax hg' h
    rw [← (mem_groups hg').1]
    exact hle

/-- Where something is returned, some group is the best. -/
theorem exists_best (h : hashing rt replies arrivals dataHashHex ≠ []) :
    ∃ best g, bestOf (tallyOf rt replies arrivals).groups = some (best, g) := by
  obtain ⟨g, hg⟩ := exists_group h
  cases hbest : bestOf (tallyOf rt replies arrivals).groups with
  | some b => exact ⟨b.1, b.2, rfl⟩
  | none =>
    rw [bestOf_eq_argmax, List.argmax_eq_none] at hbest
    rw [hbest] at hg
    cases hg

/-- A node that answers first makes its data win, if their hash is one of the most frequent. -/
theorem account_of_first {slot : JsNum} (hurl : url ∈ urls)
    (hread : (replies url).read rt = .ok (slot, dataBase64))
    (hmax : ∀ other, (hashing rt replies urls other).length ≤
      (hashing rt replies urls (hashHex rt dataBase64)).length)
    (henough : JsNum.lt (.fin (hashing rt replies urls (hashHex rt dataBase64)).length) minAgree =
      false) :
    (fetchAccountMultiRpc rt minAgree replies (url :: urls.erase url)).account =
      some (hashHex rt dataBase64, dataBase64) := by
  have hperm := (List.perm_cons_erase hurl).symm
  obtain ⟨g, hhead, hdata⟩ := @head_groups rt replies (urls.erase url) url dataBase64 slot hread
  obtain ⟨rest, hgroups⟩ := List.head?_eq_some_iff.1 hhead
  have hsize : ∀ k g', (k, g') ∈ (tallyOf rt replies (url :: urls.erase url)).groups →
      g'.urls.length = (hashing rt replies urls k).length := fun k g' hg' => by
    rw [(mem_groups hg').1, hashing_perm hperm]
  have hg := hsize _ g (by rw [hgroups]; exact List.mem_cons_self)
  refine account_eq_some.2 ⟨g, ?_, by rw [hg]; exact henough, hdata⟩
  rw [bestOf_eq_argmax, hgroups]
  refine Grouping.argmax_cons_of_le fun b hb => ?_
  rw [hg, hsize b.1 b.2 (by rw [hgroups]; exact List.mem_cons_of_mem _ hb)]
  exact hmax b.1

/-! ## When the order does not matter -/

/-- The result of a clear read. -/
theorem Clear.account (h : Clear rt replies urls dataBase64) (hperm : arrivals.Perm urls) :
    (fetchAccountMultiRpc rt minAgree replies arrivals).account =
      if JsNum.lt (.fin (hashing rt replies urls (hashHex rt dataBase64)).length) minAgree then none
      else some (hashHex rt dataBase64, dataBase64) := by
  have hsome : hashing rt replies arrivals (hashHex rt dataBase64) ≠ [] := by
    have hother := h.most ('a' :: hashHex rt dataBase64) (List.cons_ne_self _ _)
    refine List.ne_nil_of_length_pos ?_
    rw [hashing_perm hperm]
    omega
  obtain ⟨best, g, hbest⟩ := exists_best hsome
  obtain ⟨hmem, hmax⟩ := bestOf_spec hbest
  obtain ⟨hurls, url, hurl, slot, hread, hhash⟩ := mem_groups hmem
  have hclear : best = hashHex rt dataBase64 := by
    by_contra hne
    have hlt := h.most best hne
    have hle := hmax (hashHex rt dataBase64)
    rw [hurls, hashing_perm hperm, hashing_perm hperm] at hle
    omega
  subst hclear
  have hdata : g.dataBase64 = dataBase64 := by
    rw [hurls] at hurl
    have hin : url ∈ hashing rt replies urls (hashHex rt dataBase64) :=
      (hperm.filter _).subset hurl
    obtain ⟨-, slot', hread'⟩ := mem_returning.1 (h.same url hin)
    rw [hread] at hread'
    exact (Prod.mk.inj (Except.ok.inj hread')).2
  have hsize : g.urls.length = (hashing rt replies urls (hashHex rt dataBase64)).length := by
    rw [hurls, hashing_perm hperm]
  rw [← hsize]
  split
  · next hlt =>
    cases hacc : (fetchAccountMultiRpc rt minAgree replies arrivals).account with
    | none => rfl
    | some a =>
      obtain ⟨g', hg', hlt', -⟩ := account_eq_some.1 hacc
      rw [hbest, Option.some.injEq, Prod.mk.injEq] at hg'
      rw [← hg'.2, hlt] at hlt'
      cases hlt'
  · next hlt => exact account_eq_some.2 ⟨g, hbest, Bool.eq_false_of_not_eq_true hlt, hdata⟩

theorem le_of_lt_eq_false {q : ℚ} (h : JsNum.lt (.fin q) minAgree = false) (hnan : minAgree ≠ .nan) :
    minAgree.le (.fin q) = true := by
  cases minAgree with
  | nan => exact absurd rfl hnan
  | posInf => cases h
  | negInf => rfl
  | fin m => exact decide_eq_true (not_lt.1 (of_decide_eq_false h))

theorem Clear.readLaw (hmin : minAgree ≠ .nan) (h : Clear rt replies urls dataBase64) :
    ReadLaw rt minAgree replies urls := by
  have hcount : (returning rt replies urls dataBase64).length =
      (hashing rt replies urls (hashHex rt dataBase64)).length := by
    refine le_antisymm (returning_le rt replies urls dataBase64) ?_
    rw [hashing, returning, ← List.countP_eq_length_filter, ← List.countP_eq_length_filter]
    refine List.countP_mono_left fun url hurl hhash => ?_
    exact (List.mem_filter.1 (h.same url (List.mem_filter.2 ⟨hurl, hhash⟩))).2
  refine ⟨fun arrivals arrivals' hp hp' => ?_, fun arrivals hash data hp hacc => ?_⟩
  · rw [h.account hp, h.account hp']
  · rw [h.account hp] at hacc
    split at hacc
    · cases hacc
    · next hlt =>
      cases hacc
      refine ⟨rfl, ?_, fun other => ?_⟩
      · rw [hcount]
        exact le_of_lt_eq_false (Bool.eq_false_of_not_eq_true hlt) hmin
      · have hother := returning_le rt replies urls other
        rw [hcount]
        by_cases hsame : hashHex rt other = hashHex rt dataBase64
        · rwa [hsame] at hother
        · exact hother.trans (h.most _ hsame).le

/-- A read without enough replies of one hash fails in every order. -/
theorem account_of_few
    (hfew : ∀ hash, JsNum.lt (.fin (hashing rt replies urls hash).length) minAgree = true)
    (hperm : arrivals.Perm urls) :
    (fetchAccountMultiRpc rt minAgree replies arrivals).account = none := by
  refine Option.eq_none_iff_forall_ne_some.2 fun a hacc => ?_
  obtain ⟨g, hbest, hlt, -⟩ := account_eq_some.1 hacc
  rw [(mem_groups (bestOf_spec hbest).1).1, hashing_perm hperm, hfew] at hlt
  cases hlt

/-- Enough nodes are enough when there are more. -/
theorem lt_eq_false_of_le {m n : ℕ} (hle : m ≤ n) (h : JsNum.lt (.fin m) minAgree = false) :
    JsNum.lt (.fin n) minAgree = false := by
  cases minAgree with
  | nan => rfl
  | posInf => cases h
  | negInf => rfl
  | fin q =>
    have hq : ¬((m : ℚ) < q) := of_decide_eq_false h
    exact decide_eq_false fun hn => hq (lt_of_le_of_lt (Nat.cast_le.2 hle) hn)

theorem zero_lt_of_one_le (h : JsNum.le (.fin 1) minAgree = true) :
    JsNum.lt (.fin ((0 : ℕ) : ℚ)) minAgree = true := by
  cases minAgree with
  | nan => cases h
  | posInf => rfl
  | negInf => cases h
  | fin m =>
    have hone : (1 : ℚ) ≤ m := of_decide_eq_true h
    rw [Nat.cast_zero]
    exact decide_eq_true (lt_of_lt_of_le one_pos hone)

/-- If the order does not matter, a most frequent hash that is frequent enough is clear. -/
theorem clear_of_readLaw {slot : JsNum} (hlaw : ReadLaw rt minAgree replies urls) (hurl : url ∈ urls)
    (hread : (replies url).read rt = .ok (slot, dataBase64))
    (hmax : ∀ other, (hashing rt replies urls other).length ≤
      (hashing rt replies urls (hashHex rt dataBase64)).length)
    (henough : JsNum.lt (.fin (hashing rt replies urls (hashHex rt dataBase64)).length) minAgree =
      false) : Clear rt replies urls dataBase64 := by
  have hfirst := account_of_first hurl hread hmax henough
  -- Every node whose hash is as frequent wins too, when it answers first.
  have hwins : ∀ url' slot' data', url' ∈ urls → (replies url').read rt = .ok (slot', data') →
      (hashing rt replies urls (hashHex rt dataBase64)).length ≤
        (hashing rt replies urls (hashHex rt data')).length →
      hashHex rt data' = hashHex rt dataBase64 ∧ data' = dataBase64 := by
    intro url' slot' data' hurl' hread' hge
    have hfirst' := account_of_first hurl' hread' (fun other => (hmax other).trans hge)
      (lt_eq_false_of_le hge henough)
    have horder := hlaw.order _ _ (List.perm_cons_erase hurl).symm (List.perm_cons_erase hurl').symm
    rw [hfirst, hfirst', Option.some.injEq, Prod.mk.injEq] at horder
    exact ⟨horder.1.symm, horder.2.symm⟩
  refine ⟨fun other hne => ?_, fun url' hurl' => ?_⟩
  · by_contra hge
    have hpos : hashing rt replies urls (hashHex rt dataBase64) ≠ [] :=
      List.ne_nil_of_mem (mem_hashing.2 ⟨hurl, slot, dataBase64, hread, rfl⟩)
    have hother : hashing rt replies urls other ≠ [] := by
      have := List.length_pos_of_ne_nil hpos
      exact List.ne_nil_of_length_pos (by omega)
    obtain ⟨url', hurl'⟩ := List.exists_mem_of_ne_nil _ hother
    obtain ⟨hin, slot', data', hread', rfl⟩ := mem_hashing.1 hurl'
    exact hne (hwins url' slot' data' hin hread' (not_lt.1 hge)).1
  · obtain ⟨hin, slot', data', hread', hhash⟩ := mem_hashing.1 hurl'
    obtain ⟨-, rfl⟩ := hwins url' slot' data' hin hread' (by rw [hhash])
    exact mem_returning.2 ⟨hin, slot', hread'⟩

end Reads

/-- **Exactly when the order of arrival does not matter.** -/
theorem readLaw_iff (rt : Platform) (minAgree : JsNum) (replies : JsText → Reply)
    (urls : List JsText) (hmin : JsNum.le (.fin 1) minAgree = true) :
    ReadLaw rt minAgree replies urls ↔ Decided rt minAgree replies urls := by
  constructor
  · intro hlaw
    by_cases hfew : ∀ hash, JsNum.lt (.fin (hashing rt replies urls hash).length) minAgree = true
    · exact .inl hfew
    · obtain ⟨hash, hsome⟩ := not_forall.1 hfew
      have hsome := Bool.eq_false_of_not_eq_true hsome
      have hreturned : hashing rt replies urls hash ≠ [] := by
        intro hnil
        rw [hnil, List.length_nil, zero_lt_of_one_le hmin] at hsome
        cases hsome
      obtain ⟨best, g, hbest⟩ := exists_best hreturned
      obtain ⟨hmem, hmax⟩ := bestOf_spec hbest
      obtain ⟨hurls, url, hurl, slot, hread, rfl⟩ := mem_groups hmem
      rw [hurls] at hmax hurl
      exact .inr ⟨g.dataBase64, clear_of_readLaw hlaw (mem_hashing.1 hurl).1 hread hmax
        (lt_eq_false_of_le (hmax hash) hsome)⟩
  · rintro (hfew | ⟨dataBase64, hclear⟩)
    · refine ⟨fun arrivals arrivals' hp hp' => ?_, fun arrivals hash data hp hacc => ?_⟩
      · rw [account_of_few hfew hp, account_of_few hfew hp']
      · rw [account_of_few hfew hp] at hacc
        cases hacc
    · refine hclear.readLaw ?_
      rintro rfl
      cases hmin

/-! ## Two answers that are equally frequent -/

def oneText : JsText := ['A', 'Q', '=', '=']

def twoText : JsText := ['A', 'g', '=', '=']

/-- It knows the hashes of the bytes 1 and 2. -/
def examplePlatform : Platform where
  sha256Hex bytes :=
    if bytes = [1] then
      ['4', 'b', 'f', '5', '1', '2', '2', 'f', '3', '4', '4', '5', '5', '4', 'c', '5', '3', 'b',
       'd', 'e', '2', 'e', 'b', 'b', '8', 'c', 'd', '2', 'b', '7', 'e', '3', 'd', '1', '6', '0',
       '0', 'a', 'd', '6', '3', '1', 'c', '3', '8', '5', 'a', '5', 'd', '7', 'c', 'c', 'e', '2',
       '3', 'c', '7', '7', '8', '5', '4', '5', '9', 'a']
    else
      ['d', 'b', 'c', '1', 'b', '4', 'c', '9', '0', '0', 'f', 'f', 'e', '4', '8', 'd', '5', '7',
       '5', 'b', '5', 'd', 'a', '5', 'c', '6', '3', '8', '0', '4', '0', '1', '2', '5', 'f', '6',
       '5', 'd', 'b', '0', 'f', 'e', '3', 'e', '2', '4', '4', '9', '4', 'b', '7', '6', 'e', 'a',
       '9', '8', '6', '4', '5', '7', 'd', '9', '8', '6']
  base64Bytes dataBase64 := if dataBase64 = oneText then [1] else [2]
  number _ := .ok (.fin 7)
  text
    | .str s => .ok s
    | _ => .ok []

/-- The body of an answer with these data. -/
def exampleReply (dataBase64 : JsText) : Reply :=
  .response 200 (.ok (.obj [(resultKey, .obj
    [(contextKey, .obj [(slotKey, .num ['7'])]),
     (valueKey, .obj [(dataKey, .arr [.str dataBase64, .str ['b', 'a', 's', 'e', '6', '4']])])])]))

/-- The nodes `a` and `b` return one text, the others another. -/
def exampleReplies (url : JsText) : Reply :=
  if url = ['a'] ∨ url = ['b'] then exampleReply oneText else exampleReply twoText

theorem exampleReplies_readLaw :
    ReadLaw examplePlatform (.fin 2) exampleReplies [['a'], ['b'], ['c']] := by
  refine (readLaw_iff examplePlatform (.fin 2) exampleReplies [['a'], ['b'], ['c']]
    (by decide +kernel)).2 (.inr ⟨oneText, fun other hne => ?_, by decide +kernel⟩)
  by_cases htwo : other = hashHex examplePlatform twoText
  · rw [htwo]
    decide +kernel
  · -- No other hash is returned.
    have hnil : hashing examplePlatform exampleReplies [['a'], ['b'], ['c']] other = [] := by
      refine List.eq_nil_iff_forall_not_mem.2 fun url hurl => ?_
      obtain ⟨hin, slot, data, hread, rfl⟩ := mem_hashing.1 hurl
      simp only [List.mem_cons, List.not_mem_nil, or_false] at hin
      rcases hin with rfl | rfl | rfl
      · cases hread
        exact hne rfl
      · cases hread
        exact hne rfl
      · cases hread
        exact htwo rfl
    rw [hnil]
    decide +kernel

/-- Two nodes against two: the first to answer wins. -/
theorem exampleReplies_not_readLaw :
    ¬ReadLaw examplePlatform (.fin 2) exampleReplies [['a'], ['b'], ['c'], ['d']] := by
  intro h
  exact absurd (h.order [['a'], ['b'], ['c'], ['d']] [['c'], ['d'], ['a'], ['b']]
    (by decide) (by decide)) (by decide +kernel)

end Ddns.Attack
