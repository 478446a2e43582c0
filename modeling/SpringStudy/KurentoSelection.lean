import Mathlib.Data.Prod.Lex
import SpringStudy.JavaStrings
import SpringStudy.Kurento

/-!
# Choosing the media server for a pipeline

`createMediaPipeline` reads the load of every registered server, puts the
servers into a tree map ordered by load and then by url, and takes the first
with the status `CD`. The comparator looks the loads up in another map; it never
calls two servers equal, so that no server is lost in the tree, and no server
is registered without a status, so that the loop cannot fail.
-/
namespace KurentoSelection

open Tables Runs TtlCaches Kurento KurentoManger JavaStrings

variable {α : Type} [LinearOrder α]

/-- The pipeline is created on the client that is stored for `url`. -/
structure PipelineWrapper where
  client : ClientRef
  url : String
  deriving DecidableEq

inductive Failure
  | statusMissing | clientMissing
  deriving DecidableEq

/-! ## The tree map -/

/-- `map.get(key)`, for the keys the map has. -/
def usageRate (usageRateMap : Table String α) (key : {key // key ∈ usageRateMap}) : α :=
  (usageRateMap.lookup key.1).get (AList.lookup_isSome.mpr key.2)

/-- `ValueComparator.compare`. -/
def compareKeys (usageRateMap : Table String α) (key1 key2 : {key // key ∈ usageRateMap}) : Int :=
  if usageRate usageRateMap key1 > usageRate usageRateMap key2 then 1
  else if usageRate usageRateMap key1 < usageRate usageRateMap key2 then -1
  else compareTo key1.1 key2.1

/-- How a tree map reads the sign of the comparator. -/
def valueComparator (usageRateMap : Table String α) (key1 key2 : {key // key ∈ usageRateMap}) : Ordering :=
  compare (compareKeys usageRateMap key1 key2) 0

/-- The load of every client, from the readings `load`. -/
def usageRates (m : KurentoManger) (load : ClientRef → α) : Table String α :=
  m.map.keys.foldl (fun usageRateMap kmsUrl =>
    match m.map.lookup kmsUrl with
    | none => usageRateMap
    | some kurentoClient => usageRateMap.insert kmsUrl (load kurentoClient)) ∅

def entries (usageRateMap : Table String α) : List ({key // key ∈ usageRateMap} × α) :=
  usageRateMap.keys.attach.map fun key =>
    (⟨key.1, AList.mem_keys.mpr key.2⟩, usageRate usageRateMap ⟨key.1, AList.mem_keys.mpr key.2⟩)

def sorted (usageRateMap : Table String α) :
    Std.TreeMap {key // key ∈ usageRateMap} α (valueComparator usageRateMap) :=
  Std.TreeMap.ofList (entries usageRateMap) (valueComparator usageRateMap)

/-- The keys in the order in which the loop meets them. -/
def getKurentoClientSortedByMemoryAndCpuUsageRate (m : KurentoManger) (load : ClientRef → α) : List String :=
  (sorted (usageRates m load)).keys.map Subtype.val

/-! ## The loop -/

def firstConnected (m : KurentoManger) : List String → Except Failure (Option PipelineWrapper)
  | [] => .ok none
  | url :: rest =>
    match m.statusMap.lookup url with
    | none => .error .statusMissing
    | some status =>
      if status.getDescription = KurentoStatus.CD.getDescription then
        match m.map.lookup url with
        | none => .error .clientMissing
        | some client => .ok (some ⟨client, url⟩)
      else firstConnected m rest

def createMediaPipeline (m : KurentoManger) (load : ClientRef → α) :
    Except Failure (Option PipelineWrapper) :=
  if m.map.keys.isEmpty then .ok none
  else firstConnected m (getKurentoClientSortedByMemoryAndCpuUsageRate m load)

/-! ## The comparator is the order by load and url -/

/-- What the servers are to be ordered by. -/
def rank (usageRateMap : Table String α) (key : {key // key ∈ usageRateMap}) : α ×ₗ List Nat :=
  toLex (usageRate usageRateMap key, utf16 key.1)

section

variable (usageRateMap : Table String α)

theorem rank_lt_iff (key1 key2 : {key // key ∈ usageRateMap}) :
    rank usageRateMap key1 < rank usageRateMap key2 ↔
      usageRate usageRateMap key1 < usageRate usageRateMap key2 ∨
        usageRate usageRateMap key1 = usageRate usageRateMap key2 ∧ utf16 key1.1 < utf16 key2.1 :=
  Prod.Lex.toLex_lt_toLex

theorem rank_injective {β : Type} (usageRateMap : Table String β) : Function.Injective (rank usageRateMap) := by
  intro key1 key2 h
  have hurl : utf16 key1.1 = utf16 key2.1 := congrArg (fun x => (ofLex x).2) h
  exact Subtype.ext (utf16_injective hurl)

theorem compareKeys_neg_iff (key1 key2 : {key // key ∈ usageRateMap}) :
    compareKeys usageRateMap key1 key2 < 0 ↔ rank usageRateMap key1 < rank usageRateMap key2 := by
  rw [rank_lt_iff, compareKeys]
  rcases lt_trichotomy (usageRate usageRateMap key1) (usageRate usageRateMap key2) with hlt | heq | hgt
  · simp [hlt, hlt.not_gt]
  · simp [heq, compareTo_neg_iff]
  · simp [hgt, hgt.not_gt, hgt.ne']

theorem compareKeys_eq_zero_iff (key1 key2 : {key // key ∈ usageRateMap}) :
    compareKeys usageRateMap key1 key2 = 0 ↔ key1 = key2 := by
  rw [compareKeys]
  rcases lt_trichotomy (usageRate usageRateMap key1) (usageRate usageRateMap key2) with hlt | heq | hgt
  · have hne : key1 ≠ key2 := by
      rintro rfl
      exact lt_irrefl _ hlt
    simp [hlt, hlt.not_gt, hne]
  · simp only [heq, lt_irrefl, if_false, compareTo_eq_zero_iff, Subtype.ext_iff]
    exact utf16_injective.eq_iff
  · have hne : key1 ≠ key2 := by
      rintro rfl
      exact lt_irrefl _ hgt
    simp [hgt, hne]

theorem valueComparator_eq (key1 key2 : {key // key ∈ usageRateMap}) :
    valueComparator usageRateMap key1 key2 = cmp (rank usageRateMap key1) (rank usageRateMap key2) := by
  unfold valueComparator
  rcases lt_trichotomy (compareKeys usageRateMap key1 key2) 0 with hlt | heq | hgt
  · rw [compare_lt_iff_lt.mpr hlt, (cmp_eq_lt_iff _ _).mpr ((compareKeys_neg_iff _ _ _).mp hlt)]
  · rw [compare_eq_iff_eq.mpr heq, (compareKeys_eq_zero_iff _ _ _).mp heq, cmp_self_eq_eq]
  · have hgt' : rank usageRateMap key2 < rank usageRateMap key1 := by
      refine lt_of_le_of_ne ?_ ?_
      · rw [← not_lt, ← compareKeys_neg_iff]
        omega
      · intro hsame
        rw [← rank_injective usageRateMap hsame, (compareKeys_eq_zero_iff _ _ _).mpr rfl] at hgt
        exact lt_irrefl _ hgt
    rw [compare_gt_iff_gt.mpr hgt, (cmp_eq_gt_iff _ _).mpr hgt']

theorem valueComparator_isLE_iff (key1 key2 : {key // key ∈ usageRateMap}) :
    (valueComparator usageRateMap key1 key2).isLE = true ↔ rank usageRateMap key1 ≤ rank usageRateMap key2 := by
  rw [valueComparator_eq, ← not_lt, ← cmp_eq_gt_iff]
  cases cmp (rank usageRateMap key1) (rank usageRateMap key2) <;> simp

instance transCmp_valueComparator : Std.TransCmp (valueComparator usageRateMap) where
  eq_swap := by
    intro key1 key2
    rw [valueComparator_eq, valueComparator_eq, cmp_swap]
  isLE_trans := by
    intro key1 key2 key3 h12 h23
    rw [valueComparator_isLE_iff] at h12 h23 ⊢
    exact h12.trans h23

instance lawfulEqCmp_valueComparator : Std.LawfulEqCmp (valueComparator usageRateMap) where
  compare_self := by
    intro key
    rw [valueComparator_eq, cmp_self_eq_eq]
  eq_of_compare := by
    intro key1 key2 h
    rw [valueComparator_eq] at h
    exact rank_injective usageRateMap ((cmp_eq_eq_iff _ _).mp h)

/-! ## Nothing is lost in the tree -/

theorem mem_sorted (key : {key // key ∈ usageRateMap}) : key ∈ (sorted usageRateMap).keys := by
  rw [Std.TreeMap.mem_keys, sorted, Std.TreeMap.mem_ofList, List.contains_iff_mem]
  simp only [entries, List.map_map, List.mem_map, List.mem_attach, true_and, Subtype.exists]
  exact ⟨key.1, AList.mem_keys.mp key.2, rfl⟩

end

theorem lookup_usageRates {β : Type} (m : KurentoManger) (load : ClientRef → β) (url : String) :
    (usageRates m load).lookup url = (m.map.lookup url).map load := by
  -- the keys that the loop has passed are in the map of the rates, the others are not yet
  have hloop : ∀ (keys : List String) (rates : Table String β),
      (keys.foldl (fun usageRateMap kmsUrl =>
        match m.map.lookup kmsUrl with
        | none => usageRateMap
        | some kurentoClient => usageRateMap.insert kmsUrl (load kurentoClient)) rates).lookup url =
      if url ∈ keys then ((m.map.lookup url).map load).or (rates.lookup url) else rates.lookup url := by
    intro keys
    induction keys with
    | nil =>
      intro rates
      rfl
    | cons key keys ih =>
      intro rates
      rw [List.foldl_cons, ih]
      by_cases hkey : url = key
      · subst hkey
        cases hl : m.map.lookup url with
        | none => simp
        | some c => simp
      · cases hl : m.map.lookup key with
        | none => simp [hkey]
        | some c => simp [hkey]
  unfold usageRates
  rw [hloop]
  by_cases hmem : url ∈ m.map.keys
  · rw [if_pos hmem, AList.lookup_empty, Option.or_none]
  · have hnone : m.map.lookup url = none := AList.lookup_eq_none.mpr hmem
    rw [if_neg hmem, hnone]
    rfl

/-- The loop meets every registered url once. -/
theorem sorted_perm (m : KurentoManger) (load : ClientRef → α) :
    (getKurentoClientSortedByMemoryAndCpuUsageRate m load).Perm m.map.keys := by
  have hnodup : (getKurentoClientSortedByMemoryAndCpuUsageRate m load).Nodup :=
    Std.TreeMap.nodup_keys.map Subtype.val_injective
  refine (List.perm_ext_iff_of_nodup hnodup m.map.keys_nodup).mpr ?_
  intro url
  have hmem : url ∈ getKurentoClientSortedByMemoryAndCpuUsageRate m load ↔ url ∈ usageRates m load := by
    constructor
    · intro hurl
      obtain ⟨key, -, rfl⟩ := List.mem_map.mp hurl
      exact key.2
    · intro hurl
      exact List.mem_map.mpr ⟨⟨url, hurl⟩, mem_sorted _ _, rfl⟩
  rw [hmem, ← AList.lookup_isSome, lookup_usageRates, Option.isSome_map, AList.lookup_isSome, AList.mem_keys]

/-- What the loop meets later is further back in the order by load and url. -/
theorem sorted_pairwise (m : KurentoManger) (load : ClientRef → α) :
    (getKurentoClientSortedByMemoryAndCpuUsageRate m load).Pairwise fun url url' =>
      ∀ c c', m.map.lookup url = some c → m.map.lookup url' = some c' →
        toLex (load c, utf16 url) < toLex (load c', utf16 url') := by
  have hrate : ∀ (key : {key // key ∈ usageRates m load}) (c : ClientRef),
      m.map.lookup key.1 = some c → usageRate (usageRates m load) key = load c := by
    intro key c hc
    have hlookup := lookup_usageRates m load key.1
    rw [hc, Option.map_some] at hlookup
    simp [usageRate, hlookup]
  refine List.pairwise_map.mpr (Std.TreeMap.ordered_keys.imp ?_)
  intro key key' hlt c c' hc hc'
  rw [valueComparator_eq, cmp_eq_lt_iff, rank, rank, hrate key c hc, hrate key' c' hc'] at hlt
  exact hlt

/-! ## The loop takes the first that is connected -/

/-- The url is registered with client `c` and has the status `CD`. -/
def Connected (m : KurentoManger) (url : String) (c : ClientRef) : Prop :=
  m.map.lookup url = some c ∧ m.statusMap.lookup url = some .CD

/-- On urls that are registered and have a status the loop does not fail; it comes to an
end without a choice if none is connected, and else chooses one that all others come after. -/
theorem firstConnected_spec {m : KurentoManger} {before : String → String → Prop} (urls : List String)
    (hmap : ∀ url ∈ urls, ∃ c, m.map.lookup url = some c)
    (hstatus : ∀ url ∈ urls, ∃ status, m.statusMap.lookup url = some status)
    (hsorted : urls.Pairwise before) :
    (firstConnected m urls = .ok none ∧ ∀ url ∈ urls, ∀ c, ¬ Connected m url c) ∨
    ∃ w, firstConnected m urls = .ok (some w) ∧ w.url ∈ urls ∧ Connected m w.url w.client ∧
      ∀ url ∈ urls, ∀ c, Connected m url c → url = w.url ∨ before w.url url := by
  induction urls with
  | nil => exact .inl ⟨rfl, by simp⟩
  | cons url urls ih =>
    obtain ⟨hfirst, hrest⟩ := List.pairwise_cons.mp hsorted
    obtain ⟨c, hc⟩ := hmap url List.mem_cons_self
    obtain ⟨status, hs⟩ := hstatus url List.mem_cons_self
    by_cases hcd : status = .CD
    · right
      subst hcd
      refine ⟨⟨c, url⟩, by simp [firstConnected, hs, hc], List.mem_cons_self, ⟨hc, hs⟩, ?_⟩
      intro url' hurl' c' _
      exact (List.mem_cons.mp hurl').imp id (hfirst url')
    · have hskip : firstConnected m (url :: urls) = firstConnected m urls := by
        have hdescription : status.getDescription ≠ KurentoStatus.CD.getDescription :=
          fun h => hcd (KurentoStatus.getDescription_injective h)
        simp [firstConnected, hs, hdescription]
      have hnot : ∀ c', ¬ Connected m url c' := by
        rintro c' ⟨-, hconnected⟩
        exact hcd (Option.some.inj (hs.symm.trans hconnected))
      rw [hskip]
      obtain ⟨hok, hnone⟩ | ⟨w, hok, hmem, hw, hleast⟩ := ih
          (fun u hu => hmap u (List.mem_cons_of_mem url hu))
          (fun u hu => hstatus u (List.mem_cons_of_mem url hu)) hrest
      · left
        refine ⟨hok, ?_⟩
        intro url' hurl' c'
        obtain rfl | hlater := List.mem_cons.mp hurl'
        · exact hnot c'
        · exact hnone url' hlater c'
      · right
        refine ⟨w, hok, List.mem_cons_of_mem url hmem, hw, ?_⟩
        intro url' hurl' c' hconnected
        obtain rfl | hlater := List.mem_cons.mp hurl'
        · exact absurd hconnected (hnot c')
        · exact hleast url' hlater c' hconnected

/-! ## Every registered server has a status -/

/-- Whatever is registered, or can come to be registered without `register`, has a status. -/
structure StatusKnown (m : KurentoManger) : Prop where
  map : ∀ url c, m.map.lookup url = some c → (m.statusMap.lookup url).isSome = true
  cache : ∀ url, (m.ttlCache.cache.lookup url).isSome = true → (m.statusMap.lookup url).isSome = true
  accepting : ∀ url, m.timerThread = .accepting url → (m.statusMap.lookup url).isSome = true

theorem deliver_status_isSome (m : KurentoManger) (c : ClientRef) (url : String) (event : ConnectionEvent)
    (now : Nat) {u : String} (h : u = url ∨ (m.statusMap.lookup u).isSome = true) :
    ((m.deliver c url event now).statusMap.lookup u).isSome = true := by
  rw [deliver_status]
  split
  · rfl
  · rename_i hu
    exact h.resolve_left hu

theorem deliver_statusKnown {m : KurentoManger} (h : StatusKnown m) (c : ClientRef) (url : String)
    (event : ConnectionEvent) (now : Nat) : StatusKnown (m.deliver c url event now) where
  map := by
    intro u stored hstored
    rw [deliver_map] at hstored
    exact deliver_status_isSome m c url event now (.inr (h.map u stored hstored))
  cache := by
    intro u hu
    by_cases hurl : u = url
    · exact deliver_status_isSome m c url event now (.inl hurl)
    · rw [deliver_cache_other m c hurl event now] at hu
      exact deliver_status_isSome m c url event now (.inr (h.cache u hu))
  accepting := by
    intro u hu
    rw [deliver_timerThread] at hu
    exact deliver_status_isSome m c url event now (.inr (h.accepting u hu))

theorem createKmsClient_statusKnown {m : KurentoManger} (h : StatusKnown m) (url : String)
    (during : List (ConnectionEvent × Nat)) (connects : Bool) :
    StatusKnown (m.createKmsClient url during connects).1 := by
  refine deliverAll_invariant (I := StatusKnown) ?_ during _ ?_
  · intro m event now hm
    exact deliver_statusKnown hm _ url event now
  · exact ⟨h.map, h.cache, h.accepting⟩

/-- A status never goes away. -/
theorem createKmsClient_status_isSome (m : KurentoManger) (url : String)
    (during : List (ConnectionEvent × Nat)) (connects : Bool) {u : String}
    (h : (m.statusMap.lookup u).isSome = true) :
    ((m.createKmsClient url during connects).1.statusMap.lookup u).isSome = true := by
  rw [createKmsClient_status]
  split
  · simp [h]
  · exact h

theorem register_statusKnown {m : KurentoManger} (h : StatusKnown m) (url : String)
    (during : List (ConnectionEvent × Nat)) (connects : Bool) : StatusKnown (m.register url during connects) := by
  cases hl : m.map.lookup url with
  | some c =>
    rw [register_known hl]
    exact h
  | none =>
    have hcreate := createKmsClient_statusKnown h url during connects
    cases connects with
    | false =>
      rw [register_failed hl]
      exact hcreate
    | true =>
      rw [register_connected hl]
      have hput : ∀ u, u = url ∨ ((m.createKmsClient url during true).1.statusMap.lookup u).isSome = true →
          (((m.createKmsClient url during true).1.statusMap.insert url .LD).lookup u).isSome = true := by
        intro u hu
        rw [lookup_put]
        split
        · rfl
        · rename_i hurl
          exact hu.resolve_left hurl
      refine ⟨?_, ?_, ?_⟩
      · intro u c hc
        rw [lookup_put] at hc
        split at hc
        · rename_i hurl
          exact hput u (.inl hurl)
        · exact hput u (.inr (hcreate.map u c hc))
      · intro u hu
        exact hput u (.inr (hcreate.cache u hu))
      · intro u hu
        exact hput u (.inr (hcreate.accepting u hu))

theorem reconnect_statusKnown {m : KurentoManger} (h : StatusKnown m) {url : String}
    (hurl : (m.statusMap.lookup url).isSome = true) (during : List (ConnectionEvent × Nat)) (connects : Bool) :
    StatusKnown (m.reconnect url during connects) := by
  have hcreate := createKmsClient_statusKnown h url during connects
  cases connects with
  | false =>
    rw [reconnect_failed]
    exact hcreate
  | true =>
    rw [reconnect_connected]
    refine ⟨?_, hcreate.cache, hcreate.accepting⟩
    intro u c hc
    rw [lookup_put] at hc
    split at hc
    · rename_i hu
      subst hu
      exact createKmsClient_status_isSome m u during true hurl
    · exact hcreate.map u c hc

theorem unregister_statusKnown {m : KurentoManger} (h : StatusKnown m) (url : String)
    (disconnected : Option Nat) : StatusKnown (m.unregister url disconnected) := by
  cases hl : m.map.lookup url with
  | none =>
    rw [unregister_unknown hl]
    exact h
  | some c =>
    rw [unregister_known hl]
    have herase : StatusKnown { m with
        map := m.map.erase url
        clients := m.clients.modify c fun client => { client with destroyed := true } } := by
      refine ⟨?_, h.cache, h.accepting⟩
      intro u stored hstored
      exact h.map u stored (lookup_remove_eq_some.mp hstored).2
    cases disconnected with
    | none => exact herase
    | some now => exact deliver_statusKnown herase c url .disconnected now

theorem expiration_statusKnown {m : KurentoManger} (h : StatusKnown m) (task : String × Nat) (now : Nat) :
    StatusKnown (m.expiration task now) := by
  unfold KurentoManger.expiration
  split
  · refine ⟨h.map, h.cache, ?_⟩
    intro url hurl
    dsimp only at hurl
    split at hurl
    · cases hurl
    · cases hurl
  · exact h

theorem removal_statusKnown {m : KurentoManger} (h : StatusKnown m) : StatusKnown m.removal := by
  unfold KurentoManger.removal
  split
  · rename_i u hu
    refine ⟨h.map, ?_, ?_⟩
    · intro url hurl
      replace hurl : ((remove m.ttlCache u).1.cache.lookup url).isSome = true := hurl
      rw [lookup_cache_remove] at hurl
      split at hurl
      · cases hurl
      · exact h.cache url hurl
    · intro url hurl
      dsimp only at hurl
      split at hurl
      · rename_i value hvalue
        cases hurl
        refine h.cache u ?_
        rw [show m.ttlCache.cache.lookup u = some value from hvalue]
        rfl
      · cases hurl
  · exact h

theorem step_statusKnown (m : KurentoManger) (e : Event) (h : StatusKnown m) : StatusKnown (step m e) := by
  cases e with
  | register url during connects => exact register_statusKnown h url during connects
  | unregister url disconnected => exact unregister_statusKnown h url disconnected
  | callback c event now =>
    show StatusKnown (m.callback c event now)
    unfold KurentoManger.callback
    split
    · split
      · exact deliver_statusKnown h c _ event now
      · exact h
    · exact h
  | expiration task now => exact expiration_statusKnown h task now
  | removal => exact removal_statusKnown h
  | acceptance during connects =>
    show StatusKnown (m.acceptance during connects)
    rcases acceptance_cases m during connects with ⟨url, ht, he⟩ | ⟨-, he⟩
    · have hr := reconnect_statusKnown h (h.accepting url ht) during connects
      rw [he]
      exact ⟨hr.map, hr.cache, by simp⟩
    · rw [he]
      exact h

theorem run_statusKnown (events : List Event) : StatusKnown (run step KurentoManger.init events) := by
  refine run_invariant step_statusKnown _ events ⟨?_, ?_, ?_⟩
  · intro url c hc
    cases hc
  · intro url hurl
    cases hurl
  · intro url hurl
    cases hurl

/-! ## The server that is chosen -/

theorem createMediaPipeline_eq (m : KurentoManger) (load : ClientRef → α) :
    createMediaPipeline m load = firstConnected m (getKurentoClientSortedByMemoryAndCpuUsageRate m load) := by
  unfold createMediaPipeline
  split
  · rename_i hempty
    have hperm := sorted_perm m load
    rw [List.isEmpty_iff.mp hempty] at hperm
    rw [hperm.eq_nil]
    rfl
  · rfl

/-- The choice of the loop, with the order of the servers by load and url. -/
theorem createMediaPipeline_spec {m : KurentoManger} (h : StatusKnown m) (load : ClientRef → α) :
    (createMediaPipeline m load = .ok none ∧ ∀ url c, ¬ Connected m url c) ∨
    ∃ w, createMediaPipeline m load = .ok (some w) ∧ Connected m w.url w.client ∧
      ∀ url c, Connected m url c → toLex (load w.client, utf16 w.url) ≤ toLex (load c, utf16 url) := by
  have hkeys : ∀ url, url ∈ getKurentoClientSortedByMemoryAndCpuUsageRate m load ↔
      ∃ c, m.map.lookup url = some c := by
    intro url
    rw [(sorted_perm m load).mem_iff, ← AList.mem_keys, ← AList.lookup_isSome, Option.isSome_iff_exists]
  have hstatus : ∀ url ∈ getKurentoClientSortedByMemoryAndCpuUsageRate m load,
      ∃ status, m.statusMap.lookup url = some status := by
    intro url hurl
    obtain ⟨c, hc⟩ := (hkeys url).mp hurl
    exact Option.isSome_iff_exists.mp (h.map url c hc)
  rw [createMediaPipeline_eq]
  obtain ⟨hok, hnone⟩ | ⟨w, hok, -, hw, hleast⟩ :=
    firstConnected_spec _ (fun url hurl => (hkeys url).mp hurl) hstatus (sorted_pairwise m load)
  · left
    refine ⟨hok, ?_⟩
    intro url c hc
    exact hnone url ((hkeys url).mpr ⟨c, hc.1⟩) c hc
  · right
    refine ⟨w, hok, hw, ?_⟩
    intro url c hc
    obtain rfl | hlt := hleast url ((hkeys url).mpr ⟨c, hc.1⟩) c hc
    · rw [Option.some.inj (hc.1.symm.trans hw.1)]
    · exact (hlt w.client c hw.1 hc.1).le

/-- In every reachable state, for any loads: `createMediaPipeline` does not fail, looks at
every registered server once, answers with none exactly if no registered server is `CD`, and
with a server exactly if that is the `CD` server with the least load, and with the least url
among those of that load. -/
theorem createMediaPipeline_least (events : List Event) (load : ClientRef → α) :
    ∃ answer, createMediaPipeline (run step KurentoManger.init events) load = .ok answer ∧
      (getKurentoClientSortedByMemoryAndCpuUsageRate (run step KurentoManger.init events) load).Perm
        (run step KurentoManger.init events).map.keys ∧
      (answer = none ↔ ∀ url c, ¬ Connected (run step KurentoManger.init events) url c) ∧
      ∀ w : PipelineWrapper, answer = some w ↔
        Connected (run step KurentoManger.init events) w.url w.client ∧
        ∀ url c, Connected (run step KurentoManger.init events) url c →
          toLex (load w.client, utf16 w.url) ≤ toLex (load c, utf16 url) := by
  have hperm := sorted_perm (run step KurentoManger.init events) load
  obtain ⟨hok, hnone⟩ | ⟨w, hok, hw, hleast⟩ := createMediaPipeline_spec (run_statusKnown events) load
  · refine ⟨none, hok, hperm, by simpa using hnone, ?_⟩
    intro w
    refine iff_of_false (by simp) ?_
    rintro ⟨hw, -⟩
    exact hnone w.url w.client hw
  · refine ⟨some w, hok, hperm, iff_of_false (by simp) (fun hall => hall w.url w.client hw), ?_⟩
    intro w'
    constructor
    · intro hsame
      obtain rfl := Option.some.inj hsame
      exact ⟨hw, hleast⟩
    · rintro ⟨hw', hleast'⟩
      -- two least servers have the same url, and so the same client
      have hrank := le_antisymm (hleast w'.url w'.client hw') (hleast' w.url w.client hw)
      have hurl : w.url = w'.url := utf16_injective (congrArg (fun x => (ofLex x).2) hrank)
      have hclient : w.client = w'.client := by
        have hlookup := hw.1
        rw [hurl] at hlookup
        exact Option.some.inj (hlookup.symm.trans hw'.1)
      cases w
      cases w'
      cases hurl
      cases hclient
      rfl

end KurentoSelection
