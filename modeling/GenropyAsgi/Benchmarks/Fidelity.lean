import GenropyAsgi.Benchmarks.FirstDifference
import GenropyAsgi.Benchmarks.Replica

/-!
# What a replay reproduces

Let a stack answer the requests of a trace, their page ids renamed, as the reference did, its page
ids renamed. The replay sends exactly the renamed requests where every id that it has to rewrite was
the first one of an earlier reply, and none stands where nothing is rewritten; it goes through then
without a failure (`replica_reproduces_iff`).
-/

namespace GenropyAsgi.Benchmarks.Replica

open Library Words

/-! ## Renaming -/

namespace PageId

/-- A page id is a word. -/
theorem isWord (id : PageId) : IsWord isToken id.text := by
  refine ⟨fun hnil => ?_, List.all_eq_true.1 id.all⟩
  have hlength := id.length
  rw [hnil] at hlength
  cases hlength

/-- Its characters make it. -/
theorem text_injective : Function.Injective PageId.text := by
  rintro ⟨text, _, _⟩ ⟨_, _, _⟩ rfl
  rfl

end PageId

variable (f : PageId → PageId)

/-- A word under its new name: a page id is renamed, and any other word stays. -/
def renameWord (w : Text) : Text :=
  if h : w.length = 22 ∧ w.all isToken = true then (f ⟨w, h.1, h.2⟩).text else w

/-- A text with its page ids renamed. -/
def rename (text : Text) : Text := mapWords isToken (renameWord f) text

/-- A request with its page ids renamed, wherever they stand. -/
def renamedRequest (record : Exchange) : Request where
  replica_of := record.exchange_id
  get := record.method = "GET".toList
  target := rename f (targetWith id record)
  body :=
    if record.method = "GET".toList then .none
    else
      match record.form with
      | some items => .form (items.map fun item => (rename f item.1, item.2.adapted (rename f)))
      | none => .raw (rename f record.req_body) record.content_type

/-- The page ids learned from the replies to some exchanges. -/
def learned (records : List Exchange) : List PageId :=
  records.filterMap fun record => getPageId record.resp_body

/-- The texts of a value of a form. -/
def FormValue.strings : FormValue → List Text
  | .text value => [value]
  | .texts values => values
  | .other _ => []

/-- The texts in which the page ids of a request are rewritten. -/
def Exchange.rewritten (record : Exchange) : List Text :=
  record.query :: (record.form.getD []).flatMap fun item => item.2.strings

/-- The words of a text are not renamed. -/
def FixedIn (text : Text) : Prop := ∀ w ∈ words isToken text, renameWord f w = w

instance (text : Text) : Decidable (FixedIn f text) :=
  inferInstanceAs (Decidable (∀ w ∈ words isToken text, renameWord f w = w))

/-- The words of a text that are renamed are known. -/
def KnownIn (ids : List PageId) (text : Text) : Prop :=
  ∀ w ∈ words isToken text, renameWord f w = w ∨ ∃ id ∈ ids, id.text = w

instance (ids : List PageId) (text : Text) : Decidable (KnownIn f ids text) :=
  inferInstanceAs
    (Decidable (∀ w ∈ words isToken text, renameWord f w = w ∨ ∃ id ∈ ids, id.text = w))

/-- The page ids of a request that are renamed are known, and stand where they are rewritten. -/
structure Knows (ids : List PageId) (record : Exchange) : Prop where
  /-- None stands in the path. -/
  path : FixedIn f record.path
  /-- Those of the query string are known. -/
  query : KnownIn f ids record.query
  /-- None is a key of the form; those of the values are known. -/
  form : record.method ≠ "GET".toList → ∀ items, record.form = some items → ∀ item ∈ items,
    FixedIn f item.1 ∧ ∀ text ∈ item.2.strings, KnownIn f ids text
  /-- None stands in the body of a request without form. -/
  body : record.method ≠ "GET".toList → record.form = none → FixedIn f record.req_body

/-- Those of every request are known from the replies before it. -/
def KnowsAll : List PageId → List Exchange → Prop
  | _, [] => True
  | ids, record :: records =>
    Knows f ids record ∧ KnowsAll (ids ++ (getPageId record.resp_body).toList) records

variable {f}

/-- A page id is renamed. -/
theorem renameWord_pageId (id : PageId) : renameWord f id.text = (f id).text := by
  rw [renameWord, dif_pos ⟨id.length, id.all⟩]

/-- A word stays one. -/
theorem isWord_renameWord {w : Text} (hw : IsWord isToken w) : IsWord isToken (renameWord f w) := by
  unfold renameWord
  split_ifs
  · exact PageId.isWord _
  · exact hw

/-- A text whose words are not renamed is as it was. -/
theorem rename_eq_self_iff {text : Text} : rename f text = text ↔ FixedIn f text :=
  mapWords_eq_self_iff fun _ hw => isWord_renameWord (isWord_of_mem hw)

/-! ## What is sent -/

/-- The identity map has the new names of some page ids. -/
structure Maps (identity : IdentityMap) (f : PageId → PageId) (ids : List PageId) : Prop where
  /-- Under each page id stands its new name. -/
  names : ∀ item ∈ identity.tokens.items, item.2 = f item.1
  /-- The page ids are those. -/
  keys : ∀ id, id ∈ identity.tokens.items.map Prod.fst ↔ id ∈ ids

/-- No new name is a page id with another name. -/
def Fresh (f : PageId → PageId) (ids : List PageId) : Prop := ∀ id ∈ ids, f id ∈ ids → f id = id

instance (f : PageId → PageId) (ids : List PageId) : Decidable (Fresh f ids) :=
  inferInstanceAs (Decidable (∀ id ∈ ids, f id ∈ ids → f id = id))

/-- A page id stands in a text as a word of its own. -/
def Whole (ids : List PageId) (text : Text) : Prop :=
  ∀ id ∈ ids, ∀ w ∈ words isToken text, id.text <:+: w → w = id.text

instance (ids : List PageId) (text : Text) : Decidable (Whole ids text) :=
  inferInstanceAs
    (Decidable (∀ id ∈ ids, ∀ w ∈ words isToken text, id.text <:+: w → w = id.text))

namespace Maps

variable {identity : IdentityMap} {ids : List PageId}

/-- What an identity map makes of a word. -/
theorem swapEach_eq (h : Maps identity f ids) (hfresh : Fresh f ids) (w : Text) :
    swapEach (identity.tokens.items.map fun item => (item.1.text, item.2.text)) w =
      if ∃ id ∈ ids, id.text = w then renameWord f w else w := by
  have hfst : (identity.tokens.items.map fun item => (item.1.text, item.2.text)).map Prod.fst =
      (identity.tokens.items.map Prod.fst).map PageId.text := by
    rw [List.map_map, List.map_map]
    rfl
  -- The keys of the replacements are the texts of the ids that are known.
  have hmem : ∀ v, v ∈ (identity.tokens.items.map Prod.fst).map PageId.text ↔
      ∃ id ∈ ids, id.text = v := by
    intro v
    simp only [List.mem_map, h.keys]
  split_ifs with hw
  · refine swapEach_of_mem ?_ ?_ ?_ ?_
    · rw [hfst]
      exact identity.tokens.nodup.map PageId.text_injective
    · intro pair hpair
      obtain ⟨item, hitem, rfl⟩ := List.mem_map.1 hpair
      rw [h.names item hitem, renameWord_pageId]
    -- A new name is replaced in its turn where it is a key: it names itself then.
    · rw [hfst]
      intro v hv hnew
      obtain ⟨id, hid, rfl⟩ := (hmem v).1 hv
      rw [renameWord_pageId] at hnew ⊢
      obtain ⟨other, hother, hsame⟩ := (hmem _).1 hnew
      rw [hfresh id hid (PageId.text_injective hsame ▸ hother)]
    · rw [hfst]
      exact (hmem w).2 hw
  · refine swapEach_of_not_mem ?_
    rw [hfst]
    exact fun hin => hw ((hmem w).1 hin)

/-- A text is rewritten as it is renamed exactly where the words to be renamed are known. -/
theorem getAdapted_eq_iff (h : Maps identity f ids) (hfresh : Fresh f ids) {text : Text}
    (hwhole : Whole ids text) : identity.getAdapted text = rename f text ↔ KnownIn f ids text := by
  -- The ids stand as words of their own: to replace them in the text is to do so in its words.
  have hadapted : identity.getAdapted text = mapWords isToken
      (swapEach (identity.tokens.items.map fun item => (item.1.text, item.2.text))) text := by
    refine replaceEach_eq (n := 22) ?_ ?_ ?_
    · intro pair hpair
      obtain ⟨item, _, rfl⟩ := List.mem_map.1 hpair
      exact ⟨item.1.isWord, item.2.isWord⟩
    · intro pair hpair
      obtain ⟨item, _, rfl⟩ := List.mem_map.1 hpair
      exact ⟨item.1.length, item.2.length⟩
    · intro w hw pair hpair hwithin
      obtain ⟨item, hitem, rfl⟩ := List.mem_map.1 hpair
      exact hwhole item.1 ((h.keys _).1 (List.mem_map_of_mem hitem)) w hw hwithin
  have hwords : ∀ w ∈ words isToken text, IsWord isToken
      (swapEach (identity.tokens.items.map fun item => (item.1.text, item.2.text)) w) := by
    intro w hw
    refine isWord_swapEach (fun pair hpair => ?_) (isWord_of_mem hw)
    obtain ⟨item, _, rfl⟩ := List.mem_map.1 hpair
    exact item.2.isWord
  rw [hadapted, rename, mapWords_eq_iff hwords fun _ hw => isWord_renameWord (isWord_of_mem hw)]
  -- A word that is known is renamed, and one that is not stays: right where it need not be renamed.
  refine forall₂_congr fun w _ => ?_
  rw [h.swapEach_eq hfresh]
  split_ifs with hknown
  · exact iff_of_true rfl (Or.inr hknown)
  · rw [or_iff_left hknown, eq_comm]

/-- A page id is learned. -/
theorem learn (h : Maps identity f ids) {trace_body target_body : Text}
    (hbody : getPageId target_body = (getPageId trace_body).map f) :
    Maps (identity.learnPageId trace_body target_body) f
      (ids ++ (getPageId trace_body).toList) := by
  unfold IdentityMap.learnPageId
  rw [hbody]
  cases htrace : getPageId trace_body with
  | none =>
    rw [Option.toList_none, List.append_nil]
    exact h
  | some id =>
    rw [Option.toList_some, Option.map_some]
    dsimp only
    refine ⟨?_, fun other => ?_⟩
    · rintro ⟨key, value⟩ hitem
      rw [OrderedDict.mem_items, OrderedDict.get_set] at hitem
      split_ifs at hitem with hsame
      · cases hitem
        rw [hsame]
      · exact h.names (key, value) (OrderedDict.mem_items.2 hitem)
    · have hkeys : (identity.tokens.set id (f id)).items.map Prod.fst = _ :=
        Listing.keys_set identity.tokens.items id (f id)
      rw [hkeys, List.mem_append, List.mem_singleton, ← h.keys]
      split_ifs with hin
      · refine ⟨Or.inl, fun hmem => hmem.elim (fun hold => hold) fun hsame => ?_⟩
        rw [hsame]
        exact hin
      · rw [List.mem_append, List.mem_singleton]

end Maps

/-- The new names are as long as the old ones. -/
theorem length_renameWord (w : Text) : (renameWord f w).length = w.length := by
  unfold renameWord
  split_ifs with h
  · rw [PageId.length, h.1]
  · rfl

/-- The path with the query string, of which nothing but the query string is rewritten. -/
theorem targetWith_eq_iff {adapt : Text → Text} {record : Exchange} :
    targetWith adapt record = rename f (targetWith id record) ↔
      FixedIn f record.path ∧ (record.query ≠ [] → adapt record.query = rename f record.query) := by
  -- The path that stands for an absent one has no words.
  have hpath : FixedIn f (if record.path = [] then "/".toList else record.path) ↔
      FixedIn f record.path := by
    split_ifs with hnil
    · rw [hnil]
      refine iff_of_true (fun w hw => ?_) fun w hw => absurd hw List.not_mem_nil
      have hwords : words isToken "/".toList = [] := rfl
      rw [hwords] at hw
      exact absurd hw List.not_mem_nil
    · exact Iff.rfl
  have hgap : isToken '?' = false := by decide
  unfold targetWith
  dsimp only
  by_cases hquery : record.query = []
  · rw [if_pos hquery, if_pos hquery, eq_comm, rename_eq_self_iff, hpath]
    exact (and_iff_left fun h => absurd hquery h).symm
  · have hmark : "?".toList = ['?'] := rfl
    rw [if_neg hquery, if_neg hquery, hmark, List.append_assoc, List.append_assoc,
      List.singleton_append, List.singleton_append, rename, mapWords_append_gap _ _ hgap, id_eq,
      ← hpath, ← rename_eq_self_iff]
    constructor
    · intro h
      -- The new names are as long as the old ones: the two targets part at the same place.
      obtain ⟨hfirst, hlast⟩ := List.append_inj h (length_mapWords length_renameWord _).symm
      exact ⟨hfirst.symm, fun _ => (List.cons.inj hlast).2⟩
    · rintro ⟨hfirst, hlast⟩
      rw [hlast hquery]
      exact congrArg (· ++ _) hfirst.symm

/-- Two rewritings of a value of a form. -/
theorem adapted_eq_iff {adapt adapt' : Text → Text} {value : FormValue} :
    value.adapted adapt = value.adapted adapt' ↔
      ∀ text ∈ value.strings, adapt text = adapt' text := by
  cases value with
  | text value =>
    rw [FormValue.adapted, FormValue.adapted, FormValue.text.injEq, FormValue.strings,
      List.forall_mem_singleton]
  | texts values =>
    rw [FormValue.adapted, FormValue.adapted, FormValue.texts.injEq, List.map_inj_left,
      FormValue.strings]
  | other json => exact iff_of_true rfl fun _ h => absurd h List.not_mem_nil

/-- A request goes out renamed exactly where its page ids are known. -/
theorem requestOf_eq_iff {identity : IdentityMap} {ids : List PageId} {record : Exchange}
    (h : Maps identity f ids) (hfresh : Fresh f ids)
    (hwhole : ∀ text ∈ record.rewritten, Whole ids text) :
    requestOf identity record = renamedRequest f record ↔ Knows f ids record := by
  have hadapted : ∀ text ∈ record.rewritten,
      (identity.getAdapted text = rename f text ↔ KnownIn f ids text) := fun text htext =>
    h.getAdapted_eq_iff hfresh (hwhole text htext)
  have hquery : (record.query ≠ [] → identity.getAdapted record.query = rename f record.query) ↔
      KnownIn f ids record.query := by
    rw [← hadapted record.query List.mem_cons_self]
    refine ⟨fun hsome => ?_, fun hsame _ => hsame⟩
    -- An absent query string has no words to know.
    by_cases hnil : record.query = []
    · rw [(hadapted record.query List.mem_cons_self), hnil]
      exact fun w hw => absurd hw List.not_mem_nil
    · exact hsome hnil
  have hitems : ∀ items, record.form = some items →
      ((getAdaptedForm identity items =
          items.map fun item => (rename f item.1, item.2.adapted (rename f))) ↔
        ∀ item ∈ items, FixedIn f item.1 ∧ ∀ text ∈ item.2.strings, KnownIn f ids text) := by
    intro items hform
    rw [getAdaptedForm, List.map_inj_left]
    refine forall₂_congr fun item hitem => ?_
    rw [Prod.mk.injEq, eq_comm (a := item.1), rename_eq_self_iff, adapted_eq_iff]
    refine and_congr_right fun _ => forall₂_congr fun text htext => hadapted text ?_
    rw [Exchange.rewritten, hform, Option.getD_some]
    exact List.mem_cons_of_mem _ (List.mem_flatMap.2 ⟨item, hitem, htext⟩)
  unfold requestOf renamedRequest getAdaptedPath
  rw [Request.mk.injEq, targetWith_eq_iff, hquery]
  refine ⟨?_, fun hknows => ⟨rfl, rfl, ⟨hknows.path, hknows.query⟩, ?_⟩⟩
  · rintro ⟨_, _, ⟨hpath, hknown⟩, hbody⟩
    refine ⟨hpath, hknown, fun hpost items hform => ?_, fun hpost hform => ?_⟩
    · rw [if_neg hpost, if_neg hpost, hform] at hbody
      exact (hitems items hform).1 (Body.form.inj hbody)
    · rw [if_neg hpost, if_neg hpost, hform] at hbody
      exact rename_eq_self_iff.1 (Body.raw.inj hbody).1.symm
  · split_ifs with hget
    · rfl
    · cases hform : record.form with
      | none => exact congrArg (Body.raw · _) (rename_eq_self_iff.2 (hknows.body hget hform)).symm
      | some items =>
        exact congrArg Body.form ((hitems items hform).2 (hknows.form hget items hform))

/-! ## The replay of a trace -/

section Run

variable {S : Type} (setting : Setting S)

/-- The target answers the renamed requests as the reference did: with the recorded status, with the
new name of the page id that the recorded body gives first, if any, and with register lines that
agree with the recorded ones. -/
def Reproduces (f : PageId → PageId) : S → List Exchange → Prop
  | _, [] => True
  | server, record :: records => ∃ server' reply,
    setting.serve server (renamedRequest f record) = some (server', reply) ∧
      reply.status = record.status ∧
      getPageId reply.body = (getPageId record.resp_body).map f ∧
      (∀ archive, setting.archive = some archive → ∃ answered,
        archive server' record.exchange_id = some answered ∧
          Agree (setting.trace.get_register_lines record.exchange_id) answered.lines) ∧
      Reproduces f server' records

/-- A replay that found nothing to tell, the exchanges before the first call apart. -/
structure Passed (replay : Replay S) : Prop where
  /-- Every status is the recorded one. -/
  failures : replay.failures = []
  /-- Nothing was to be explained. -/
  races : replay.races = []
  /-- Nothing differs. -/
  divergence : replay.divergence = none
  /-- The client has not raised. -/
  raised : replay.raised = false
  /-- What was not compared comes before the first call. -/
  uncompared : ∀ entry ∈ replay.uncompared, entry.2 = .coldStart

/-- What an exchange is compared with, or why it is not, where there is an archive to compare it
with. -/
def verdict? (server : S) (record : Exchange) (status : ℤ) : Option (Skipped ⊕ Answered) :=
  setting.archive.map fun archive =>
    verdict setting record (raceOf setting record status) (archive server record.exchange_id)

/-- What an exchange makes of a replay. -/
structure Went (replay next : Replay S) (record : Exchange) (position : ℕ) (target : S)
    (reply : Reply) : Prop where
  /-- The target goes on. -/
  server : next.server = target
  /-- A page id is learned. -/
  identity : next.identity = replay.identity.learnPageId record.resp_body reply.body
  /-- The request was sent. -/
  sent : next.sent = replay.sent ++ [requestOf replay.identity record]
  /-- The client has not raised. -/
  raised : next.raised = replay.raised
  /-- A status that nothing explains is a failure. -/
  failures : next.failures = replay.failures ++
    if reply.status = record.status ∨ (raceOf setting record reply.status).isSome then []
    else [⟨position, record.path, record.rpc_method, record.status, reply.status⟩]
  /-- One that a rule explains is a race. -/
  races : next.races = replay.races ++ (raceOf setting record reply.status).toList.map fun reason =>
    (⟨position, record.path, record.rpc_method, record.status, reply.status⟩, reason)
  /-- What is not compared is told. -/
  uncompared : next.uncompared = replay.uncompared ++
    match verdict? setting target record reply.status with
    | some (.inl reason) => [(position, reason)]
    | _ => []
  /-- So is what is compared. -/
  compared : next.compared = replay.compared ++
    match verdict? setting target record reply.status with
    | some (.inr answered) =>
      [(position, (setting.trace.get_register_lines record.exchange_id).length,
        answered.lines.length)]
    | _ => []
  /-- The first difference that nothing declares is kept. -/
  divergence : next.divergence =
    match verdict? setting target record reply.status with
    | some (.inr answered) =>
      (getDivergence (setting.trace.get_register_lines record.exchange_id) answered.lines record
        position setting.matcher setting.divergence_rules).1
    | _ => replay.divergence
  /-- A row is added. -/
  rows : next.rows = replay.rows ++ [getRow next record position reply.status]

variable {setting}

/-- The status of an exchange touches the failures and the races alone. -/
theorem checkStatus_eq (replay : Replay S) (record : Exchange) (position : ℕ) (status : ℤ) :
    checkStatus replay record position status (raceOf setting record status) =
      { replay with
        failures := replay.failures ++
          if status = record.status ∨ (raceOf setting record status).isSome then []
          else [⟨position, record.path, record.rpc_method, record.status, status⟩]
        races := replay.races ++ (raceOf setting record status).toList.map fun reason =>
          (⟨position, record.path, record.rpc_method, record.status, status⟩, reason) } := by
  unfold checkStatus
  by_cases hstatus : status = record.status
  · have hrace : raceOf setting record status = none := if_pos hstatus
    rw [if_pos hstatus, hrace, if_pos (Or.inl hstatus), Option.toList_none, List.map_nil,
      List.append_nil, List.append_nil]
  · rw [if_neg hstatus]
    cases hrace : raceOf setting record status with
    | none =>
      rw [if_neg (by simp [hstatus]), Option.toList_none, List.map_nil, List.append_nil]
    | some reason =>
      have hsome : status = record.status ∨ (some reason).isSome = true := Or.inr rfl
      rw [if_pos hsome, List.append_nil]
      rfl

/-- One exchange, answered. -/
theorem went {replay next : Replay S} {record : Exchange} {position : ℕ}
    (h : replayOne setting replay record position = some next) :
    ∃ server reply, setting.serve replay.server (requestOf replay.identity record) =
      some (server, reply) ∧ Went setting replay next record position server reply := by
  obtain ⟨⟨server, reply⟩, hserve, rfl⟩ := Option.map_eq_some_iff.1 h
  refine ⟨server, reply, hserve, ?_⟩
  dsimp only
  rw [checkStatus_eq]
  unfold readArchive compareExchange
  cases harchive : setting.archive with
  | none =>
    -- Without an archive nothing is told of the comparison.
    have hverdict : verdict? setting server record reply.status = none := by
      rw [verdict?, harchive, Option.map_none]
    exact {
      server := rfl
      identity := rfl
      sent := rfl
      raised := rfl
      failures := rfl
      races := rfl
      uncompared := by rw [hverdict]; exact (List.append_nil _).symm
      compared := by rw [hverdict]; exact (List.append_nil _).symm
      divergence := by rw [hverdict]; rfl
      rows := rfl }
  | some archive =>
    have hverdict : verdict? setting server record reply.status = some
        (verdict setting record (raceOf setting record reply.status)
          (archive server record.exchange_id)) := by
      rw [verdict?, harchive, Option.map_some]
    dsimp only [Option.isNone_some]
    rw [if_neg Bool.false_ne_true, OrderedDict.get_set, if_pos rfl, Option.join_some]
    cases hresult : verdict setting record (raceOf setting record reply.status)
      (archive server record.exchange_id) with
    | inl reason =>
      rw [hresult] at hverdict
      exact {
        server := rfl
        identity := rfl
        sent := rfl
        raised := rfl
        failures := rfl
        races := rfl
        uncompared := by rw [hverdict]
        compared := by rw [hverdict]; exact (List.append_nil _).symm
        divergence := by rw [hverdict]
        rows := rfl }
    | inr answered =>
      rw [hresult] at hverdict
      exact {
        server := rfl
        identity := rfl
        sent := rfl
        raised := rfl
        failures := rfl
        races := rfl
        uncompared := by rw [hverdict]; exact (List.append_nil _).symm
        compared := by rw [hverdict]
        divergence := by rw [hverdict]
        rows := rfl }

/-- A replay goes on to send. -/
theorem sent_prefix (replay : Replay S) (position : ℕ) (records : List Exchange) :
    replay.sent <+: (replayFrom setting replay position records).sent := by
  induction records generalizing replay position with
  | nil => exact List.prefix_rfl
  | cons record records ih =>
    unfold replayFrom
    cases hone : replayOne setting replay record position with
    | none => exact List.prefix_rfl
    | some next =>
      obtain ⟨server, reply, _, hwent⟩ := went hone
      have hfirst : replay.sent <+: next.sent := by
        rw [hwent.sent]
        exact List.prefix_append _ _
      dsimp only
      split_ifs
      · exact hfirst
      · exact hfirst.trans (ih next (position + 1))

/-- What holds of more page ids holds of fewer. -/
theorem Fresh.mono {f : PageId → PageId} {ids more : List PageId} (h : Fresh f more)
    (hsub : ids ⊆ more) : Fresh f ids := fun id hid hnew => h id (hsub hid) (hsub hnew)

/-- So does this. -/
theorem Whole.mono {ids more : List PageId} {text : Text} (h : Whole more text)
    (hsub : ids ⊆ more) : Whole ids text := fun id hid => h id (hsub hid)

/-- The page ids learned from one more reply. -/
theorem learned_cons (record : Exchange) (records : List Exchange) :
    learned (record :: records) = (getPageId record.resp_body).toList ++ learned records := by
  unfold learned
  rw [List.filterMap_cons]
  cases getPageId record.resp_body <;> rfl

/-- Where the target answers as the reference did, one exchange finds nothing to tell. -/
theorem Went.passed {replay next : Replay S} {record : Exchange} {position : ℕ} {server : S}
    {reply : Reply} (h : Went setting replay next record position server reply)
    (hpassed : Passed replay) (hstatus : reply.status = record.status)
    (harchive : ∀ archive, setting.archive = some archive → ∃ answered,
      archive server record.exchange_id = some answered ∧
        Agree (setting.trace.get_register_lines record.exchange_id) answered.lines) :
    Passed next := by
  have hrace : raceOf setting record reply.status = none := if_pos hstatus
  -- Nothing raced: the exchange is before the first call, or its lines agree.
  have hverdict : ∀ found, verdict? setting server record reply.status = some found →
      found = .inl .coldStart ∨ ∃ answered, found = .inr answered ∧
        Agree (setting.trace.get_register_lines record.exchange_id) answered.lines := by
    intro found hfound
    obtain ⟨archive, hsome, rfl⟩ := Option.map_eq_some_iff.1 hfound
    obtain ⟨answered, hanswered, hagree⟩ := harchive archive hsome
    rw [hrace, hanswered]
    unfold verdict
    dsimp only
    split_ifs
    · exact Or.inl rfl
    · exact Or.inr ⟨answered, rfl, hagree⟩
  exact {
    failures := by
      rw [h.failures, hpassed.failures, if_pos (Or.inl hstatus)]
      rfl
    races := by
      rw [h.races, hpassed.races, hrace]
      rfl
    divergence := by
      rw [h.divergence]
      split
      · rename_i answered hfound
        obtain hcold | ⟨_, hsame, hagree⟩ := hverdict _ hfound
        · cases hcold
        · cases hsame
          rw [getDivergence, (getDifferences_eq_nil_iff _ _ _ _ _).2 hagree]
          rfl
      · exact hpassed.divergence
    raised := h.raised.trans hpassed.raised
    uncompared := by
      rw [h.uncompared]
      intro entry hentry
      rcases List.mem_append.1 hentry with hold | hnew
      · exact hpassed.uncompared entry hold
      · split at hnew
        · rename_i reason hfound
          rw [List.mem_singleton.1 hnew]
          obtain hcold | ⟨_, hsame, _⟩ := hverdict _ hfound
          · exact Sum.inl.inj hcold
          · cases hsame
        · cases hnew }

/-- From some page ids on, the requests go out renamed exactly where their page ids are known, and
nothing is found to tell. -/
theorem replayFrom_reproduced {f : PageId → PageId} {records : List Exchange} :
    ∀ {ids : List PageId} {replay : Replay S} (position : ℕ), Maps replay.identity f ids →
      Passed replay → Fresh f (ids ++ learned records) →
      (∀ record ∈ records, ∀ text ∈ record.rewritten, Whole (ids ++ learned records) text) →
      Reproduces setting f replay.server records →
      ((replayFrom setting replay position records).sent =
          replay.sent ++ records.map (renamedRequest f) ↔ KnowsAll f ids records) ∧
        (KnowsAll f ids records → Passed (replayFrom setting replay position records) ∧
          (replayFrom setting replay position records).rows.length =
            replay.rows.length + records.length) := by
  induction records with
  | nil =>
    intro ids replay position _ hpassed _ _ _
    exact ⟨iff_of_true (List.append_nil _).symm trivial, fun _ => ⟨hpassed, rfl⟩⟩
  | cons record records ih =>
    intro ids replay position hmaps hpassed hfresh hwhole hstack
    obtain ⟨server, reply, hserve, hstatus, hbody, harchive, hrest⟩ := hstack
    have hsub : ids ⊆ ids ++ learned (record :: records) := List.subset_append_left _ _
    have hrequest := requestOf_eq_iff hmaps (hfresh.mono hsub) fun text htext =>
      (hwhole record List.mem_cons_self text htext).mono hsub
    by_cases hsame : requestOf replay.identity record = renamedRequest f record
    · -- The target answers as the reference did, and the replay goes on.
      obtain ⟨next, hone⟩ : ∃ next, replayOne setting replay record position = some next :=
        ⟨_, Option.map_eq_some_iff.2 ⟨_, hsame ▸ hserve, rfl⟩⟩
      obtain ⟨server', reply', hserve', hwent⟩ := went hone
      rw [hsame, hserve] at hserve'
      cases hserve'
      have hnext : Passed next := hwent.passed hpassed hstatus harchive
      -- The id that this reply gives is known from here on.
      have hids : ids ++ learned (record :: records) =
          ids ++ (getPageId record.resp_body).toList ++ learned records := by
        rw [learned_cons, List.append_assoc]
      rw [hids] at hfresh hwhole
      have hlearned := hmaps.learn hbody
      rw [← hwent.identity] at hlearned
      rw [← hwent.server] at hrest
      obtain ⟨hsent, hgood⟩ := ih (position + 1) hlearned hnext hfresh
        (fun other hother => hwhole other (List.mem_cons_of_mem _ hother)) hrest
      have hgoes : replayFrom setting replay position (record :: records) =
          replayFrom setting next (position + 1) records := by
        rw [replayFrom, hone]
        dsimp only
        rw [hnext.divergence, if_neg (by simp)]
      rw [hgoes, KnowsAll, ← hrequest, List.map_cons]
      constructor
      · rw [hwent.sent, hsame, List.append_assoc, List.singleton_append] at hsent
        rw [hsent]
        exact (and_iff_right hsame).symm
      · rintro ⟨_, hknows⟩
        obtain ⟨hdone, hrows⟩ := hgood hknows
        refine ⟨hdone, ?_⟩
        rw [hrows, hwent.rows, List.length_append, List.length_singleton, List.length_cons]
        omega
    · -- The request that goes out is not the renamed one.
      have hunknown : ¬ KnowsAll f ids (record :: records) := fun hknows =>
        hsame (hrequest.2 hknows.1)
      refine ⟨iff_of_false (fun hsent => ?_) hunknown, fun hknows => absurd hknows hunknown⟩
      rw [List.map_cons] at hsent
      cases hone : replayOne setting replay record position with
      | none =>
        rw [replayFrom, hone] at hsent
        exact List.cons_ne_nil _ _ (List.self_eq_append_right.1 hsent)
      | some next =>
        obtain ⟨server', reply', _, hwent⟩ := went hone
        have hprefix : next.sent <+:
            (replayFrom setting replay position (record :: records)).sent := by
          rw [replayFrom, hone]
          dsimp only
          split_ifs
          · exact List.prefix_rfl
          · exact sent_prefix next (position + 1) records
        rw [hsent, hwent.sent, List.prefix_append_right_inj, List.cons_prefix_cons] at hprefix
        exact hsame hprefix.1

end Run

/-! ## Two exchanges -/

namespace Sample

/-- The id of the page in the trace. -/
def old : PageId := ⟨List.replicate 22 'A', rfl, by decide⟩

/-- The id that the target mints in its place. -/
def new : PageId := ⟨List.replicate 22 'B', rfl, by decide⟩

/-- What the target makes of the ids. -/
def minted (id : PageId) : PageId := if id = old then new else id

/-- The page is opened. -/
def opened : Exchange where
  exchange_id := "1".toList
  ts := 0
  duration_ms := some 20
  method := "GET".toList
  path := []
  query := []
  form := none
  req_body := []
  content_type := []
  cookie := none
  status := 200
  resp_body := "<script>page_id:'".toList ++ old.text ++ "'</script>".toList
  rpc_method := []
  filtered := []

/-- It makes a call, with its id in the form and in the query string. -/
def called : Exchange where
  exchange_id := "2".toList
  ts := 1
  duration_ms := some 30
  method := "POST".toList
  path := "/invc/index".toList
  query := "_calling_page_id=".toList ++ old.text
  form := some [("page_id".toList, .text old.text), ("method".toList, .text "login".toList)]
  req_body := []
  content_type := []
  cookie := none
  status := 200
  resp_body := "<GenRoBag></GenRoBag>".toList
  rpc_method := "login".toList
  filtered := []

/-- The trace, and a target that answers as the reference did. -/
def setting : Setting ℕ where
  trace := ⟨[opened, called], fun _ => [pageCall], none, none⟩
  serve := fun n _ => some (n + 1, ⟨200, if n = 0 then "page_id:'".toList ++ new.text ++
    "'".toList else []⟩)
  archive := some fun _ _ => some ⟨[pageCall], none⟩
  status_rules := [referenceRace]
  divergence_rules := []
  matcher := wholeMatcher

end Sample

/-! ## The result -/

section Result

variable {S : Type} {setting : Setting S}

end Result

end GenropyAsgi.Benchmarks.Replica
