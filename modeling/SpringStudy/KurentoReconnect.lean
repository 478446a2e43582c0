import SpringStudy.Kurento

/-!
# Reconnecting after a media server was unregistered

A failure event leaves an entry in the cache, and `unregister` does not take it
out: when the entry expires, the timer connects a new client and stores it under
the url again. An unregistered url stays out of the map, as long as none of its
clients fails afterwards, just when no such entry and no such timer was there
and destroying the client did not make one.
-/
namespace KurentoReconnect

open Tables Runs TtlCaches Kurento KurentoManger

/-- A reconnect of the url is waiting in the cache or in the hands of the timer. -/
def Pending (m : KurentoManger) (url : String) : Prop :=
  (m.ttlCache.cache.lookup url).isSome = true ∨ m.timerThread = .accepting url

instance (m : KurentoManger) (url : String) : Decidable (Pending m url) :=
  inferInstanceAs (Decidable (_ ∨ _))

/-- The url is not registered by the step, and none of its clients reports a failure. -/
def Quiet (url : String) (m : KurentoManger) : Event → Prop
  | .register u _ _ => u ≠ url
  | .callback c event _ =>
    ∀ client, m.clients[c]? = some client → client.kmsUrl = url → event.up = true
  | _ => True

/-! ## Nothing pending stays out -/

/-- The url is not registered and nothing will register it. -/
structure Out (m : KurentoManger) (url : String) : Prop where
  map : m.map.lookup url = none
  cache : m.ttlCache.cache.lookup url = none
  timerThread : m.timerThread ≠ .accepting url

theorem out_iff (m : KurentoManger) (url : String) :
    Out m url ↔ m.map.lookup url = none ∧ ¬ Pending m url := by
  constructor
  · intro ho
    refine ⟨ho.map, ?_⟩
    simp [Pending, ho.cache, ho.timerThread]
  · rintro ⟨hmap, hpending⟩
    obtain ⟨hcache, hthread⟩ := not_or.mp hpending
    exact ⟨hmap, Option.not_isSome_iff_eq_none.mp hcache, hthread⟩

theorem Out.createKmsClient {m : KurentoManger} {url u : String} (ho : Out m url) (hu : url ≠ u)
    (during : List (ConnectionEvent × Nat)) (connects : Bool) :
    Out (m.createKmsClient u during connects).1 url := by
  refine ⟨?_, ?_, ?_⟩
  · rw [createKmsClient_map]
    exact ho.map
  · rw [createKmsClient_cache_other m hu during connects]
    exact ho.cache
  · rw [createKmsClient_timerThread]
    exact ho.timerThread

theorem Out.insert {m : KurentoManger} {url u : String} (ho : Out m url) (hu : url ≠ u) (c : ClientRef) :
    Out { m with map := m.map.insert u c } url := by
  refine ⟨?_, ho.cache, ho.timerThread⟩
  rw [lookup_put, if_neg hu]
  exact ho.map

theorem register_out {m : KurentoManger} {url u : String} (ho : Out m url) (hu : url ≠ u)
    (during : List (ConnectionEvent × Nat)) (connects : Bool) : Out (m.register u during connects) url := by
  cases hl : m.map.lookup u with
  | some c =>
    rw [register_known hl]
    exact ho
  | none =>
    have hcreate := ho.createKmsClient hu during connects
    cases connects with
    | false =>
      rw [register_failed hl]
      exact hcreate
    | true =>
      rw [register_connected hl]
      have hinsert := hcreate.insert hu m.clients.length
      exact ⟨hinsert.map, hinsert.cache, hinsert.timerThread⟩

theorem reconnect_out {m : KurentoManger} {url u : String} (ho : Out m url) (hu : url ≠ u)
    (during : List (ConnectionEvent × Nat)) (connects : Bool) : Out (m.reconnect u during connects) url := by
  have hcreate := ho.createKmsClient hu during connects
  cases connects with
  | false =>
    rw [reconnect_failed]
    exact hcreate
  | true =>
    rw [reconnect_connected]
    exact hcreate.insert hu m.clients.length

theorem Out.deliver {m : KurentoManger} {url u : String} (ho : Out m url) (hu : url ≠ u) (c : ClientRef)
    (event : ConnectionEvent) (now : Nat) : Out (m.deliver c u event now) url := by
  refine ⟨?_, ?_, ?_⟩
  · rw [deliver_map]
    exact ho.map
  · rw [deliver_cache_other m c hu event now]
    exact ho.cache
  · rw [deliver_timerThread]
    exact ho.timerThread

theorem Out.deliver_up {m : KurentoManger} {url : String} (ho : Out m url) (c : ClientRef) (u : String)
    {event : ConnectionEvent} (hup : event.up = true) (now : Nat) : Out (m.deliver c u event now) url := by
  refine ⟨?_, ?_, ?_⟩
  · rw [deliver_map]
    exact ho.map
  · rw [deliver_ttlCache, if_pos hup]
    exact ho.cache
  · rw [deliver_timerThread]
    exact ho.timerThread

theorem Out.destroy {m : KurentoManger} {url u : String} (ho : Out m url) (hu : url ≠ u) (c : ClientRef)
    (disconnected : Option Nat) : Out (m.destroy c u disconnected) url := by
  have hmark : Out { m with
      clients := m.clients.modify c fun client => { client with destroyed := true } } url :=
    ⟨ho.map, ho.cache, ho.timerThread⟩
  cases disconnected with
  | none => exact hmark
  | some now => exact hmark.deliver hu c .disconnected now

theorem unregister_out {m : KurentoManger} {url : String} (ho : Out m url) (u : String)
    (disconnected : Option Nat) : Out (m.unregister u disconnected) url := by
  cases hl : m.map.lookup u with
  | none =>
    rw [unregister_unknown hl]
    exact ho
  | some c =>
    have hu : url ≠ u := by
      rintro rfl
      rw [ho.map] at hl
      cases hl
    rw [unregister_known hl]
    have herase : Out { m with map := m.map.erase u } url := by
      refine ⟨?_, ho.cache, ho.timerThread⟩
      rw [lookup_remove, if_neg hu]
      exact ho.map
    exact herase.destroy hu c disconnected

theorem callback_out {m : KurentoManger} {url : String} (ho : Out m url) (c : ClientRef)
    (event : ConnectionEvent) (now : Nat) (hq : Quiet url m (.callback c event now)) :
    Out (m.callback c event now) url := by
  unfold KurentoManger.callback
  split
  · rename_i client hc
    split
    · by_cases hurl : client.kmsUrl = url
      · exact ho.deliver_up c client.kmsUrl (hq client hc hurl) now
      · exact ho.deliver (Ne.symm hurl) c event now
    · exact ho
  · exact ho

theorem expiration_out {m : KurentoManger} {url : String} (ho : Out m url) (task : String × Nat) (now : Nat) :
    Out (m.expiration task now) url := by
  unfold KurentoManger.expiration
  split
  · refine ⟨ho.map, ho.cache, ?_⟩
    dsimp only
    split
    · simp
    · simp
  · exact ho

theorem removal_out {m : KurentoManger} {url : String} (ho : Out m url) : Out m.removal url := by
  unfold KurentoManger.removal
  split
  · rename_i u hu
    refine ⟨ho.map, ?_, ?_⟩
    · show (remove m.ttlCache u).1.cache.lookup url = none
      rw [lookup_cache_remove, ho.cache]
      simp
    · -- the entry that is taken out is not that of `url`, which has none
      dsimp only
      split
      · rename_i hvalue
        intro haccepting
        have hsame : u = url := by
          cases haccepting
          rfl
        subst hsame
        exact absurd (ho.cache.symm.trans hvalue) (by simp)
      · simp
  · exact ho

theorem acceptance_out {m : KurentoManger} {url : String} (ho : Out m url)
    (during : List (ConnectionEvent × Nat)) (connects : Bool) : Out (m.acceptance during connects) url := by
  rcases acceptance_cases m during connects with ⟨u, ht, he⟩ | ⟨-, he⟩
  · have hu : url ≠ u := by
      rintro rfl
      exact ho.timerThread ht
    have hr := reconnect_out ho hu during connects
    rw [he]
    exact ⟨hr.map, hr.cache, by simp⟩
  · rw [he]
    exact ho

theorem step_out {url : String} (m : KurentoManger) (e : Event) (ho : Out m url) (hq : Quiet url m e) :
    Out (step m e) url := by
  cases e with
  | register u during connects => exact register_out ho (Ne.symm hq) during connects
  | unregister u disconnected => exact unregister_out ho u disconnected
  | callback c event now => exact callback_out ho c event now hq
  | expiration task now => exact expiration_out ho task now
  | removal => exact removal_out ho
  | acceptance during connects => exact acceptance_out ho during connects

theorem run_out {url : String} {m : KurentoManger} (ho : Out m url) (post : List Event)
    (hq : Along step (Quiet url) m post) : Out (run step m post) url :=
  (throughout_of_along (I := fun m => Out m url) (fun m e => step_out m e) m post ho hq).run

/-! ## Whatever is pending comes back -/

/-- Every entry has a timer that will find it expired, unless the timer thread has found it already. -/
def Timed (m : KurentoManger) : Prop :=
  ∀ url, (m.ttlCache.cache.lookup url).isSome = true → m.timerThread = .removing url ∨
    ∃ t, m.ttlCache.expirationTimes.lookup url = some t ∧ (url, t) ∈ m.ttlCache.timers

theorem Timed.same {m m' : KurentoManger} (h : Timed m) (hcache : m'.ttlCache = m.ttlCache)
    (hthread : m'.timerThread = m.timerThread) : Timed m' := by
  intro url hsome
  rw [hcache] at hsome ⊢
  rw [hthread]
  exact h url hsome

theorem deliver_timed {m : KurentoManger} (h : Timed m) (c : ClientRef) (url : String)
    (event : ConnectionEvent) (now : Nat) : Timed (m.deliver c url event now) := by
  have hcheck : Timed (m.kmsDownCheck url now) := by
    have hthread : (m.kmsDownCheck url now).timerThread = m.timerThread := by rw [kmsDownCheck_eq]
    rcases kmsDownCheck_ttlCache m url now with ⟨-, he⟩ | ⟨hcache, htimes, htimers⟩
    · exact h.same he hthread
    · intro k hk
      rw [hthread, htimes, htimers]
      by_cases hurl : k = url
      · right
        refine ⟨now + 5000, if_pos hurl, ?_⟩
        rw [hurl]
        exact List.mem_cons_self
      · rw [hcache, if_neg hurl] at hk
        rw [if_neg hurl]
        refine (h k hk).imp id ?_
        rintro ⟨t, ht, hmem⟩
        exact ⟨t, ht, List.mem_cons_of_mem _ hmem⟩
  by_cases hup : event.up = true
  · refine h.same ?_ (deliver_timerThread m c url event now)
    rw [deliver_ttlCache, if_pos hup]
  · refine hcheck.same ?_ ?_
    · rw [deliver_ttlCache, if_neg hup]
    · rw [deliver_timerThread, kmsDownCheck_eq]

theorem createKmsClient_timed {m : KurentoManger} (h : Timed m) (url : String)
    (during : List (ConnectionEvent × Nat)) (connects : Bool) :
    Timed (m.createKmsClient url during connects).1 :=
  deliverAll_invariant (I := Timed) (fun _ event now h => deliver_timed h _ url event now) during _ h

theorem register_timed {m : KurentoManger} (h : Timed m) (url : String)
    (during : List (ConnectionEvent × Nat)) (connects : Bool) : Timed (m.register url during connects) := by
  cases hl : m.map.lookup url with
  | some c =>
    rw [register_known hl]
    exact h
  | none =>
    have hcreate := createKmsClient_timed h url during connects
    cases connects with
    | false =>
      rw [register_failed hl]
      exact hcreate
    | true =>
      rw [register_connected hl]
      exact hcreate

theorem reconnect_timed {m : KurentoManger} (h : Timed m) (url : String)
    (during : List (ConnectionEvent × Nat)) (connects : Bool) : Timed (m.reconnect url during connects) := by
  cases connects with
  | false => exact createKmsClient_timed h url during false
  | true => exact createKmsClient_timed h url during true

theorem unregister_timed {m : KurentoManger} (h : Timed m) (url : String) (disconnected : Option Nat) :
    Timed (m.unregister url disconnected) := by
  cases hl : m.map.lookup url with
  | none =>
    rw [unregister_unknown hl]
    exact h
  | some c =>
    rw [unregister_known hl]
    cases disconnected with
    | none => exact h
    | some now =>
      refine deliver_timed ?_ c url .disconnected now
      exact h

theorem expiration_timed {m : KurentoManger} (h : Timed m) (task : String × Nat) (now : Nat) :
    Timed (m.expiration task now) := by
  unfold KurentoManger.expiration
  split
  · rename_i hdue
    obtain ⟨hidle, -, hnow⟩ := hdue
    intro url hsome
    obtain hremoving | ⟨t, ht, hmem⟩ := h url hsome
    · rw [hidle] at hremoving
      cases hremoving
    · by_cases htask : (url, t) = task
      · -- the timer of the entry itself finds it expired
        left
        subst htask
        have hlate : isExpired hasCome m.ttlCache url now = true := by
          simp [isExpired, ht, hasCome, hnow]
        simp [hlate]
      · right
        exact ⟨t, ht, (List.mem_erase_of_ne htask).mpr hmem⟩
  · exact h

theorem removal_timed {m : KurentoManger} (h : Timed m) : Timed m.removal := by
  unfold KurentoManger.removal
  split
  · rename_i u hu
    intro url hsome
    replace hsome : ((remove m.ttlCache u).1.cache.lookup url).isSome = true := hsome
    rw [lookup_cache_remove] at hsome
    by_cases hurl : url = u
    · rw [if_pos hurl] at hsome
      cases hsome
    · rw [if_neg hurl] at hsome
      obtain hremoving | ⟨t, ht, hmem⟩ := h url hsome
      · rw [hu] at hremoving
        cases hremoving
        exact absurd rfl hurl
      · right
        refine ⟨t, ?_, hmem⟩
        exact (lookup_remove m.ttlCache.expirationTimes u url).trans ((if_neg hurl).trans ht)
  · exact h

theorem acceptance_timed {m : KurentoManger} (h : Timed m) (during : List (ConnectionEvent × Nat))
    (connects : Bool) : Timed (m.acceptance during connects) := by
  rcases acceptance_cases m during connects with ⟨u, ht, he⟩ | ⟨-, he⟩
  · have hthread : (m.reconnect u during connects).timerThread = .accepting u := by
      cases connects with
      | false => exact (createKmsClient_timerThread m u during false).trans ht
      | true => exact (createKmsClient_timerThread m u during true).trans ht
    rw [he]
    intro url hsome
    obtain hremoving | htimer := reconnect_timed h u during connects url hsome
    · rw [hthread] at hremoving
      cases hremoving
    · exact .inr htimer
  · rw [he]
    exact h

theorem step_timed (m : KurentoManger) (e : Event) (h : Timed m) : Timed (step m e) := by
  cases e with
  | register url during connects => exact register_timed h url during connects
  | unregister url disconnected => exact unregister_timed h url disconnected
  | callback c event now =>
    show Timed (m.callback c event now)
    unfold KurentoManger.callback
    split
    · split
      · exact deliver_timed h c _ event now
      · exact h
    · exact h
  | expiration task now => exact expiration_timed h task now
  | removal => exact removal_timed h
  | acceptance during connects => exact acceptance_timed h during connects

theorem run_timed (events : List Event) : Timed (run step KurentoManger.init events) :=
  run_invariant step_timed _ events (by intro url hsome; cases hsome)

/-- The url is registered after some steps that are quiet about it. -/
def ComesBack (m : KurentoManger) (url : String) : Prop :=
  ∃ post, Along step (Quiet url) m post ∧ (run step m post).map.lookup url ≠ none

theorem ComesBack.cons {m : KurentoManger} {url : String} {e : Event} (hq : Quiet url m e)
    (h : ComesBack (step m e) url) : ComesBack m url := by
  obtain ⟨post, hpost, hback⟩ := h
  exact ⟨e :: post, ⟨hq, hpost⟩, hback⟩

theorem comesBack_accepting {m : KurentoManger} {url : String} (h : m.timerThread = .accepting url) :
    ComesBack m url := by
  refine ⟨[.acceptance [] true], ⟨trivial, trivial⟩, ?_⟩
  show (m.acceptance [] true).map.lookup url ≠ none
  simp only [KurentoManger.acceptance, h, reconnect_connected, lookup_put, if_true]
  simp

theorem comesBack_removing {m : KurentoManger} {url : String} (h : m.timerThread = .removing url)
    (hsome : (m.ttlCache.cache.lookup url).isSome = true) : ComesBack m url := by
  obtain ⟨value, hvalue⟩ := Option.isSome_iff_exists.mp hsome
  refine ComesBack.cons (e := .removal) trivial (comesBack_accepting ?_)
  show m.removal.timerThread = .accepting url
  have hremoved : (remove m.ttlCache url).2 = some value := hvalue
  simp only [KurentoManger.removal, h, hremoved]

theorem comesBack_idle {m : KurentoManger} {url : String} {t : Nat} (h : m.timerThread = .idle)
    (hsome : (m.ttlCache.cache.lookup url).isSome = true)
    (ht : m.ttlCache.expirationTimes.lookup url = some t) (hmem : (url, t) ∈ m.ttlCache.timers) :
    ComesBack m url := by
  have hlate : isExpired hasCome m.ttlCache url t = true := by
    simp [isExpired, ht, hasCome]
  refine ComesBack.cons (e := .expiration (url, t) t) trivial (comesBack_removing ?_ ?_)
  · show (m.expiration (url, t) t).timerThread = .removing url
    simp [KurentoManger.expiration, h, hmem, hlate]
  · show ((m.expiration (url, t) t).ttlCache.cache.lookup url).isSome = true
    simp [KurentoManger.expiration, h, hmem, hsome]

/-- The timer thread ends what it is at, and then comes to the entry. -/
theorem comesBack_timed {m : KurentoManger} {url : String} {t : Nat}
    (hsome : (m.ttlCache.cache.lookup url).isSome = true)
    (ht : m.ttlCache.expirationTimes.lookup url = some t) (hmem : (url, t) ∈ m.ttlCache.timers)
    (hthread : ∀ u, m.timerThread ≠ .removing u) : ComesBack m url := by
  cases hm : m.timerThread with
  | idle => exact comesBack_idle hm hsome ht hmem
  | removing u => exact absurd hm (hthread u)
  | accepting u =>
    have hstep : step m (.acceptance [] false) =
        { (m.createKmsClient u [] false).1 with timerThread := .idle } := by
      simp [step, KurentoManger.acceptance, hm, reconnect_failed]
    refine ComesBack.cons (e := .acceptance [] false) trivial ?_
    rw [hstep]
    refine comesBack_idle (t := t) rfl ?_ ?_ ?_
    · exact hsome
    · exact ht
    · exact hmem

theorem comesBack_of_pending {m : KurentoManger} {url : String} (h : Timed m) (hp : Pending m url) :
    ComesBack m url := by
  obtain hsome | haccepting := hp
  · obtain hremoving | ⟨t, ht, hmem⟩ := h url hsome
    · exact comesBack_removing hremoving hsome
    · cases hm : m.timerThread with
      | idle => exact comesBack_idle hm hsome ht hmem
      | accepting u => exact comesBack_timed hsome ht hmem (by simp [hm])
      | removing u =>
        by_cases hu : url = u
        · exact comesBack_removing (hm.trans (by rw [hu])) hsome
        · refine ComesBack.cons (e := .removal) trivial (comesBack_timed (t := t) ?_ ?_ ?_ ?_)
          · show (m.removal.ttlCache.cache.lookup url).isSome = true
            simp only [KurentoManger.removal, hm]
            rw [lookup_cache_remove, if_neg hu]
            exact hsome
          · show m.removal.ttlCache.expirationTimes.lookup url = some t
            simp only [KurentoManger.removal, hm]
            exact (lookup_remove m.ttlCache.expirationTimes u url).trans ((if_neg hu).trans ht)
          · show (url, t) ∈ m.removal.ttlCache.timers
            simp only [KurentoManger.removal, hm]
            exact hmem
          · show ∀ v, m.removal.timerThread ≠ .removing v
            intro v
            simp only [KurentoManger.removal, hm]
            split
            · simp
            · simp
  · exact comesBack_accepting haccepting

/-! ## After `unregister` -/

/-- A reconnect is pending after `unregister` if one was before, or if destroying the
client has reported that it is disconnected. -/
theorem unregister_pending_iff {m : KurentoManger} {url : String} {c : ClientRef}
    (hc : m.map.lookup url = some c) (disconnected : Option Nat) :
    Pending (m.unregister url disconnected) url ↔ Pending m url ∨ disconnected ≠ none := by
  rw [unregister_known hc]
  cases disconnected with
  | none => simp [Pending, KurentoManger.destroy]
  | some now =>
    refine iff_of_true (.inl ?_) (.inr (by simp))
    show ((KurentoManger.deliver _ c url .disconnected now).ttlCache.cache.lookup url).isSome = true
    rw [deliver_ttlCache]
    exact kmsDownCheck_pending _ url now

/-- Once `url` is unregistered it stays out of the map, for any steps in which it is not
registered and its clients report no failure, exactly if no reconnect was pending and
destroying the client did not report that it is disconnected. -/
theorem unregistered_staysOut_iff (events : List Event) (url : String) (disconnected : Option Nat)
    (hreg : (run step KurentoManger.init events).map.lookup url ≠ none) :
    (∀ post, Along step (Quiet url)
        (run step KurentoManger.init (events ++ [.unregister url disconnected])) post →
      (run step KurentoManger.init (events ++ .unregister url disconnected :: post)).map.lookup url = none) ↔
    ¬ Pending (run step KurentoManger.init events) url ∧ disconnected = none := by
  obtain ⟨c, hc⟩ := Option.ne_none_iff_exists'.mp hreg
  have hafter : ∀ post, run step KurentoManger.init (events ++ .unregister url disconnected :: post) =
      run step ((run step KurentoManger.init events).unregister url disconnected) post := by
    intro post
    rw [run_append]
    rfl
  simp only [hafter]
  set m := run step KurentoManger.init events with hm
  have hpending := unregister_pending_iff hc disconnected
  have htimed : Timed (m.unregister url disconnected) := unregister_timed (run_timed events) url disconnected
  have habsent : (m.unregister url disconnected).map.lookup url = none := by
    rw [unregister_known hc, destroy_map, lookup_remove, if_pos rfl]
  constructor
  · intro hout
    have hnot : ¬ Pending (m.unregister url disconnected) url := by
      intro hp
      obtain ⟨post, hq, hback⟩ := comesBack_of_pending htimed hp
      exact hback (hout post hq)
    rw [hpending, not_or, not_not] at hnot
    exact hnot
  · rintro ⟨hnot, hnone⟩ post hq
    have ho : Out (m.unregister url disconnected) url := by
      rw [out_iff, hpending, not_or, not_not]
      exact ⟨habsent, hnot, hnone⟩
    exact (run_out ho post hq).map

def kms : String := "ws://kms:8888/kurento"

theorem unregistered_staysOut_silent :
    (run step KurentoManger.init [.register kms [] true]).map.lookup kms ≠ none ∧
    ∀ post, Along step (Quiet kms)
        (run step KurentoManger.init ([.register kms [] true] ++ [.unregister kms none])) post →
      (run step KurentoManger.init ([.register kms [] true] ++ .unregister kms none :: post)).map.lookup kms =
        none := by
  have hreg : (run step KurentoManger.init [.register kms [] true]).map.lookup kms ≠ none := by
    decide +kernel
  refine ⟨hreg, ?_⟩
  refine (unregistered_staysOut_iff [.register kms [] true] kms none hreg).mpr ⟨?_, rfl⟩
  decide +kernel

/-- The connection fails before the server is unregistered. -/
def failedBefore : List Event := [.register kms [] true, .callback 0 .connectionFailed 0]

/-- What the timer does five seconds later. -/
def expires : List Event := [.expiration (kms, 5000) 5000, .removal, .acceptance [] true]

/-- The server is back in the map, and nobody has registered it again. -/
theorem unregistered_comesBack :
    (run step KurentoManger.init failedBefore).map.lookup kms ≠ none ∧
    Along step (Quiet kms) (run step KurentoManger.init (failedBefore ++ [.unregister kms none])) expires ∧
    (run step KurentoManger.init (failedBefore ++ .unregister kms none :: expires)).map.lookup kms ≠ none := by
  refine ⟨by decide +kernel, ⟨trivial, trivial, trivial, trivial⟩, ?_⟩
  decide +kernel

end KurentoReconnect
