import SpringStudy.Kurento

/-!
# What the status of a media server says about its client

A url is to have the status `CD` just when the client stored for it last told
of a connection. The status is written by the callbacks of all clients that
were ever built for the url, and by `register` itself once the client is
there. The result names, for every step, when that keeps the two together.
-/
namespace KurentoStatuses

open Tables Runs Kurento KurentoManger

/-- The last event the client delivered is connected or reconnected. -/
def lastUp (m : KurentoManger) (c : ClientRef) : Bool :=
  ((m.clients[c]?).bind fun client => client.delivered.getLast?).any ConnectionEvent.up

/-- The status of the url tells how its client is. -/
def TellsOf (m : KurentoManger) (url : String) (c : ClientRef) : Prop :=
  m.statusMap.lookup url = some .CD ↔ lastUp m c = true

def StatusTells (m : KurentoManger) : Prop := ∀ url c, m.map.lookup url = some c → TellsOf m url c

/-- What keeps the status of every url with its client: `register` takes a client
that is not up yet, a reconnected client that was silent while connecting replaces
a status that is not `CD`, and a client that is not stored, be it replaced or one
that did not connect, tells what the stored one last told. -/
def Agrees (m : KurentoManger) : Event → Prop
  | .register url during connects =>
    m.map.lookup url = none → connects = true → (newest during).any ConnectionEvent.up = false
  | .acceptance during connects =>
    ∀ url, m.timerThread = .accepting url →
      if connects then newest during = none → m.statusMap.lookup url ≠ some .CD
      else ∀ stored event, m.map.lookup url = some stored → newest during = some event →
        event.up = lastUp m stored
  | .callback c event _ =>
    ∀ client stored, m.clients[c]? = some client → Delivers client event →
      m.map.lookup client.kmsUrl = some stored → stored ≠ c → event.up = lastUp m stored
  | _ => True

/-! ## Clients and the events they delivered -/

def urlOf (m : KurentoManger) (c : ClientRef) : Option String := (m.clients[c]?).map KurentoClient.kmsUrl

/-- Every stored client was built for the url it is stored under. -/
def Stored (m : KurentoManger) : Prop := ∀ url c, m.map.lookup url = some c → urlOf m c = some url

theorem Stored.lt {m : KurentoManger} (h : Stored m) {url : String} {c : ClientRef}
    (hc : m.map.lookup url = some c) : c < m.clients.length := by
  obtain ⟨client, hclient, -⟩ := Option.map_eq_some_iff.mp (h url c hc)
  exact (List.getElem?_eq_some_iff.mp hclient).1

theorem urlOf_modify {m m' : KurentoManger} {c : ClientRef} {f : KurentoClient → KurentoClient}
    (hf : ∀ client, (f client).kmsUrl = client.kmsUrl) (h : m'.clients = m.clients.modify c f)
    (i : ClientRef) : urlOf m' i = urlOf m i := by
  rw [urlOf, urlOf, h, List.getElem?_modify]
  cases m.clients[i]? with
  | none => rfl
  | some client =>
    by_cases hi : c = i
    · simp [hi, hf]
    · simp [hi]

theorem urlOf_deliver (m : KurentoManger) (c : ClientRef) (url : String) (event : ConnectionEvent) (now : Nat)
    (i : ClientRef) : urlOf (m.deliver c url event now) i = urlOf m i := by
  refine urlOf_modify ?_ (deliver_clients m c url event now) i
  exact fun _ => rfl

theorem lastUp_deliver (m : KurentoManger) (c : ClientRef) (url : String) (event : ConnectionEvent) (now : Nat)
    (i : ClientRef) (hi : i < m.clients.length) :
    lastUp (m.deliver c url event now) i = if i = c then event.up else lastUp m i := by
  rw [lastUp, lastUp, deliver_clients, List.getElem?_modify, List.getElem?_eq_getElem hi]
  by_cases hc : c = i
  · simp [hc]
  · simp [hc, Ne.symm hc]

theorem urlOf_destroy (m : KurentoManger) (c : ClientRef) (url : String) (disconnected : Option Nat)
    (i : ClientRef) : urlOf (m.destroy c url disconnected) i = urlOf m i := by
  have hmark : urlOf ({ m with
      clients := m.clients.modify c fun client => { client with destroyed := true } } : KurentoManger) i =
      urlOf m i := by
    refine urlOf_modify (c := c) ?_ rfl i
    exact fun _ => rfl
  cases disconnected with
  | none => exact hmark
  | some now => exact (urlOf_deliver _ c url .disconnected now i).trans hmark

theorem lastUp_destroy (m : KurentoManger) {c i : ClientRef} (hne : i ≠ c) (url : String)
    (disconnected : Option Nat) (hi : i < m.clients.length) :
    lastUp (m.destroy c url disconnected) i = lastUp m i := by
  have hmark : lastUp ({ m with
      clients := m.clients.modify c fun client => { client with destroyed := true } } : KurentoManger) i =
      lastUp m i := by
    rw [lastUp, lastUp, List.getElem?_modify]
    simp [hne.symm]
  cases disconnected with
  | none => exact hmark
  | some now =>
    refine (lastUp_deliver _ c url .disconnected now i ?_).trans ?_
    · rw [List.length_modify]
      exact hi
    · rw [if_neg hne]
      exact hmark

/-! ## A new client -/

section

variable (m : KurentoManger) (url : String) (during : List (ConnectionEvent × Nat)) (connects : Bool)

theorem lastUp_createKmsClient_old (i : ClientRef) (hi : i < m.clients.length) :
    lastUp (m.createKmsClient url during connects).1 i = lastUp m i := by
  rw [lastUp, lastUp, createKmsClient_clients, List.getElem?_append_left hi]

theorem lastUp_createKmsClient_new :
    lastUp (m.createKmsClient url during connects).1 m.clients.length =
      (newest during).any ConnectionEvent.up := by
  rw [lastUp, createKmsClient_clients, newest]
  simp

theorem urlOf_createKmsClient_old (i : ClientRef) (hi : i < m.clients.length) :
    urlOf (m.createKmsClient url during connects).1 i = urlOf m i := by
  rw [urlOf, urlOf, createKmsClient_clients, List.getElem?_append_left hi]

theorem urlOf_createKmsClient_new :
    urlOf (m.createKmsClient url during connects).1 m.clients.length = some url := by
  rw [urlOf, createKmsClient_clients]
  simp

end

/-! ## One step -/

/-- Only the url a step is about needs a look. -/
theorem statusTells_iff_at {m m' : KurentoManger} (h : StatusTells m) (url : String)
    (hother : ∀ u c, u ≠ url → m'.map.lookup u = some c → m.map.lookup u = some c ∧
      m'.statusMap.lookup u = m.statusMap.lookup u ∧ lastUp m' c = lastUp m c) :
    StatusTells m' ↔ ∀ c, m'.map.lookup url = some c → TellsOf m' url c := by
  constructor
  · intro htells
    exact htells url
  · intro hurl u c hc
    by_cases hu : u = url
    · subst hu
      exact hurl c hc
    · obtain ⟨hmap, hstatus, hup⟩ := hother u c hu hc
      rw [TellsOf, hstatus, hup]
      exact h u c hmap

/-- After the events of `during` the status tells of `c`, if they ended as `c` did. -/
theorem tellsOf_createKmsClient_iff (m : KurentoManger) (url : String) (during : List (ConnectionEvent × Nat))
    (connects : Bool) {event : ConnectionEvent} (hnewest : newest during = some event) (c : ClientRef) :
    TellsOf (m.createKmsClient url during connects).1 url c ↔
      event.up = lastUp (m.createKmsClient url during connects).1 c := by
  rw [TellsOf, createKmsClient_status, if_pos rfl, hnewest]
  simp only [Option.map_some, Option.some_or, Option.some.injEq, ConnectionEvent.status_eq_CD_iff]
  exact Bool.eq_iff_iff.symm

/-- What is stored for other urls does not notice a new client. -/
theorem createKmsClient_other {m : KurentoManger} (hs : Stored m) {url u : String} {c : ClientRef}
    (hu : u ≠ url) (hc : m.map.lookup u = some c) (during : List (ConnectionEvent × Nat)) (connects : Bool) :
    (m.createKmsClient url during connects).1.statusMap.lookup u = m.statusMap.lookup u ∧
      lastUp (m.createKmsClient url during connects).1 c = lastUp m c := by
  refine ⟨?_, lastUp_createKmsClient_old m url during connects c (hs.lt hc)⟩
  rw [createKmsClient_status, if_neg hu]

theorem register_statusTells_iff {m : KurentoManger} (hs : Stored m) (h : StatusTells m) (url : String)
    (during : List (ConnectionEvent × Nat)) (connects : Bool) :
    StatusTells (m.register url during connects) ↔ Agrees m (.register url during connects) := by
  cases hl : m.map.lookup url with
  | some c =>
    rw [register_known hl]
    simp [h, Agrees, hl]
  | none =>
    cases connects with
    | false =>
      rw [register_failed hl, statusTells_iff_at h url]
      · simp [Agrees, hl]
      · intro u c hu hc
        rw [createKmsClient_map] at hc
        exact ⟨hc, createKmsClient_other hs hu hc during false⟩
    | true =>
      rw [register_connected hl, statusTells_iff_at h url]
      · -- the client is stored with the status `LD`, so it must not be up
        have hup := lastUp_createKmsClient_new m url during true
        simp only [lookup_put, if_true, Option.some.injEq, forall_eq', TellsOf, Agrees, hl, forall_true_left]
        rw [← hup]
        simp [lastUp]
      · intro u c hu hc
        have hc' : m.map.lookup u = some c := by
          rw [lookup_put, if_neg hu, createKmsClient_map] at hc
          exact hc
        obtain ⟨hstatus, hlast⟩ := createKmsClient_other hs hu hc' during true
        refine ⟨hc', ?_, hlast⟩
        rw [lookup_put, if_neg hu]
        exact hstatus

theorem reconnect_statusTells_iff {m : KurentoManger} (hs : Stored m) (h : StatusTells m) (url : String)
    (during : List (ConnectionEvent × Nat)) (connects : Bool) :
    StatusTells (m.reconnect url during connects) ↔
      if connects then newest during = none → m.statusMap.lookup url ≠ some .CD
      else ∀ stored event, m.map.lookup url = some stored → newest during = some event →
        event.up = lastUp m stored := by
  cases connects with
  | false =>
    rw [reconnect_failed, statusTells_iff_at h url]
    · simp only [createKmsClient_map, Bool.false_eq_true, if_false]
      constructor
      · intro htells stored event hstored hnewest
        rw [← lastUp_createKmsClient_old m url during false stored (hs.lt hstored)]
        exact (tellsOf_createKmsClient_iff m url during false hnewest stored).mp (htells stored hstored)
      · intro hagrees stored hstored
        cases hnewest : newest during with
        | none =>
          rw [TellsOf, createKmsClient_status, if_pos rfl, hnewest,
            lastUp_createKmsClient_old m url during false stored (hs.lt hstored)]
          exact h url stored hstored
        | some event =>
          rw [tellsOf_createKmsClient_iff m url during false hnewest,
            lastUp_createKmsClient_old m url during false stored (hs.lt hstored)]
          exact hagrees stored event hstored hnewest
    · intro u c hu hc
      rw [createKmsClient_map] at hc
      exact ⟨hc, createKmsClient_other hs hu hc during false⟩
  | true =>
    rw [reconnect_connected, statusTells_iff_at h url]
    · simp only [lookup_put, if_true, Option.some.injEq, forall_eq']
      have hup := lastUp_createKmsClient_new m url during true
      show TellsOf (m.createKmsClient url during true).1 url m.clients.length ↔ _
      cases hnewest : newest during with
      | none =>
        rw [hnewest] at hup
        rw [TellsOf, createKmsClient_status, if_pos rfl, hnewest, hup]
        simp
      | some event =>
        rw [tellsOf_createKmsClient_iff m url during true hnewest, hup, hnewest]
        simp
    · intro u c hu hc
      have hc' : m.map.lookup u = some c := by
        rw [lookup_put, if_neg hu, createKmsClient_map] at hc
        exact hc
      exact ⟨hc', createKmsClient_other hs hu hc' during true⟩

theorem acceptance_statusTells_iff {m : KurentoManger} (hs : Stored m) (h : StatusTells m)
    (during : List (ConnectionEvent × Nat)) (connects : Bool) :
    StatusTells (m.acceptance during connects) ↔ Agrees m (.acceptance during connects) := by
  rcases acceptance_cases m during connects with ⟨url, ht, he⟩ | ⟨ht, he⟩
  · simp only [he, Agrees, ht, TimerThread.accepting.injEq, forall_eq']
    exact reconnect_statusTells_iff hs h url during connects
  · simp [he, Agrees, ht, h]

theorem tellsOf_deliver_iff {m : KurentoManger} (hs : Stored m) {url : String} {stored : ClientRef}
    (hstored : m.map.lookup url = some stored) (c : ClientRef) (event : ConnectionEvent) (now : Nat) :
    TellsOf (m.deliver c url event now) url stored ↔ (stored ≠ c → event.up = lastUp m stored) := by
  rw [TellsOf, deliver_status, if_pos rfl, Option.some.injEq, ConnectionEvent.status_eq_CD_iff,
    lastUp_deliver m c url event now stored (hs.lt hstored), ← Bool.eq_iff_iff]
  by_cases hsame : stored = c
  · simp [hsame]
  · simp [hsame]

/-- A client delivers for its own url, so no other stored client is meant. -/
theorem deliver_other {m : KurentoManger} (hs : Stored m) {c : ClientRef} {client : KurentoClient}
    (hc : m.clients[c]? = some client) {u : String} {stored : ClientRef} (hu : u ≠ client.kmsUrl)
    (hstored : m.map.lookup u = some stored) (event : ConnectionEvent) (now : Nat) :
    (m.deliver c client.kmsUrl event now).statusMap.lookup u = m.statusMap.lookup u ∧
      lastUp (m.deliver c client.kmsUrl event now) stored = lastUp m stored := by
  have hne : stored ≠ c := by
    intro hsame
    have hurl := hs u stored hstored
    rw [hsame, urlOf, hc] at hurl
    exact hu (Option.some.inj hurl).symm
  refine ⟨?_, ?_⟩
  · rw [deliver_status, if_neg hu]
  · rw [lastUp_deliver m c client.kmsUrl event now stored (hs.lt hstored), if_neg hne]

theorem callback_statusTells_iff {m : KurentoManger} (hs : Stored m) (h : StatusTells m) (c : ClientRef)
    (event : ConnectionEvent) (now : Nat) :
    StatusTells (m.callback c event now) ↔ Agrees m (.callback c event now) := by
  unfold KurentoManger.callback
  cases hc : m.clients[c]? with
  | none => simp [Agrees, hc, h]
  | some client =>
    simp only [Agrees, hc, Option.some.injEq]
    by_cases hd : Delivers client event
    · simp only [hd, if_true]
      rw [statusTells_iff_at h client.kmsUrl]
      · simp only [deliver_map]
        constructor
        · rintro hall client' stored rfl - hstored
          exact (tellsOf_deliver_iff hs hstored c event now).mp (hall stored hstored)
        · intro hagrees stored hstored
          exact (tellsOf_deliver_iff hs hstored c event now).mpr (hagrees client stored rfl hd hstored)
      · intro u stored hu hstored
        rw [deliver_map] at hstored
        exact ⟨hstored, deliver_other hs hc hu hstored event now⟩
    · simp only [hd, if_false, h, true_iff]
      rintro client' stored rfl hd'
      exact absurd hd' hd

theorem unregister_statusTells {m : KurentoManger} (hs : Stored m) (h : StatusTells m) (url : String)
    (disconnected : Option Nat) : StatusTells (m.unregister url disconnected) := by
  cases hl : m.map.lookup url with
  | none =>
    rw [unregister_unknown hl]
    exact h
  | some c =>
    rw [unregister_known hl]
    intro u stored hstored
    rw [destroy_map] at hstored
    obtain ⟨hu, hstored⟩ := lookup_remove_eq_some.mp hstored
    have hne : stored ≠ c := by
      rintro rfl
      exact hu (Option.some.inj ((hs u stored hstored).symm.trans (hs url stored hl)))
    have hlast := lastUp_destroy { m with map := m.map.erase url } hne url disconnected (hs.lt hstored)
    rw [TellsOf, destroy_status _ c hu, hlast]
    exact h u stored hstored

/-! ## Every run -/

theorem createKmsClient_stored {m : KurentoManger} (hs : Stored m) (url : String)
    (during : List (ConnectionEvent × Nat)) (connects : Bool) :
    Stored (m.createKmsClient url during connects).1 := by
  intro u c hc
  rw [createKmsClient_map] at hc
  rw [urlOf_createKmsClient_old m url during connects c (hs.lt hc)]
  exact hs u c hc

/-- The new client may be stored for the url it was built for. -/
theorem createKmsClient_stored_insert {m : KurentoManger} (hs : Stored m) (url : String)
    (during : List (ConnectionEvent × Nat)) (connects : Bool) :
    Stored { (m.createKmsClient url during connects).1 with
      map := (m.createKmsClient url during connects).1.map.insert url m.clients.length } := by
  intro u c hc
  rw [lookup_put] at hc
  split at hc
  · rename_i hu
    obtain rfl := Option.some.inj hc
    rw [hu]
    exact urlOf_createKmsClient_new m url during connects
  · exact createKmsClient_stored hs url during connects u c hc

theorem register_stored {m : KurentoManger} (hs : Stored m) (url : String)
    (during : List (ConnectionEvent × Nat)) (connects : Bool) : Stored (m.register url during connects) := by
  cases hl : m.map.lookup url with
  | some c =>
    rw [register_known hl]
    exact hs
  | none =>
    cases connects with
    | false =>
      rw [register_failed hl]
      exact createKmsClient_stored hs url during false
    | true =>
      rw [register_connected hl]
      exact createKmsClient_stored_insert hs url during true

theorem reconnect_stored {m : KurentoManger} (hs : Stored m) (url : String)
    (during : List (ConnectionEvent × Nat)) (connects : Bool) : Stored (m.reconnect url during connects) := by
  cases connects with
  | false =>
    rw [reconnect_failed]
    exact createKmsClient_stored hs url during false
  | true =>
    rw [reconnect_connected]
    exact createKmsClient_stored_insert hs url during true

theorem unregister_stored {m : KurentoManger} (hs : Stored m) (url : String) (disconnected : Option Nat) :
    Stored (m.unregister url disconnected) := by
  cases hl : m.map.lookup url with
  | none =>
    rw [unregister_unknown hl]
    exact hs
  | some c =>
    rw [unregister_known hl]
    intro u stored hstored
    rw [destroy_map] at hstored
    rw [urlOf_destroy]
    exact hs u stored (lookup_remove_eq_some.mp hstored).2

theorem callback_stored {m : KurentoManger} (hs : Stored m) (c : ClientRef) (event : ConnectionEvent)
    (now : Nat) : Stored (m.callback c event now) := by
  unfold KurentoManger.callback
  split
  · split
    · intro u stored hstored
      rw [deliver_map] at hstored
      rw [urlOf_deliver]
      exact hs u stored hstored
    · exact hs
  · exact hs

theorem step_stored (m : KurentoManger) (e : Event) (hs : Stored m) : Stored (step m e) := by
  cases e with
  | register url during connects => exact register_stored hs url during connects
  | unregister url disconnected => exact unregister_stored hs url disconnected
  | callback c event now => exact callback_stored hs c event now
  | expiration task now =>
    show Stored (m.expiration task now)
    rw [expiration_eq]
    exact hs
  | removal =>
    show Stored m.removal
    rw [removal_eq]
    exact hs
  | acceptance during connects =>
    show Stored (m.acceptance during connects)
    rcases acceptance_cases m during connects with ⟨url, -, he⟩ | ⟨-, he⟩
    · rw [he]
      exact reconnect_stored hs url during connects
    · rw [he]
      exact hs

theorem step_statusTells_iff (m : KurentoManger) (e : Event) (hs : Stored m) (h : StatusTells m) :
    StatusTells (step m e) ↔ Agrees m e := by
  cases e with
  | register url during connects => exact register_statusTells_iff hs h url during connects
  | unregister url disconnected => exact iff_of_true (unregister_statusTells hs h url disconnected) trivial
  | callback c event now => exact callback_statusTells_iff hs h c event now
  | expiration task now =>
    refine iff_of_true ?_ trivial
    show StatusTells (m.expiration task now)
    rw [expiration_eq]
    exact h
  | removal =>
    refine iff_of_true ?_ trivial
    show StatusTells m.removal
    rw [removal_eq]
    exact h
  | acceptance during connects => exact acceptance_statusTells_iff hs h during connects

/-- In every state of a run the status of each registered url is `CD` just when the
client stored for it last told of a connection, exactly if all steps of the run agree. -/
theorem statusTells_throughout_iff_agrees (events : List Event) :
    Throughout step StatusTells KurentoManger.init events ↔ Along step Agrees KurentoManger.init events := by
  refine throughout_iff_along (J := Stored) (fun m e hs _ => step_stored m e hs) step_statusTells_iff
    KurentoManger.init events ?_ ?_
  · intro url c hc
    cases hc
  · intro url c hc
    cases hc

/-- The media server is connected before `register` writes the status. -/
def connectedAtOnce : List Event := [.register "ws://kms:8888/kurento" [(.connected, 0)] true]

/-- The stored client has told of its connection, and `register` has put `LD` over it. -/
theorem not_statusTells_connectedAtOnce : ¬ StatusTells (run step KurentoManger.init connectedAtOnce) := by
  intro h
  have htells := h "ws://kms:8888/kurento" 0 (by decide +kernel)
  exact absurd (htells.mpr (by decide +kernel)) (by decide +kernel)

end KurentoStatuses
