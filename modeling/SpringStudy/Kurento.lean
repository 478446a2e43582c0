import SpringStudy.Runs
import SpringStudy.MediaRoomManager

/-!
# The Kurento clients of the media server

`KurentoManger` keeps a client and a status for every media server. A client
reports its connection through callbacks, on the thread that connects it or on
a thread of its own, and a replaced client goes on reporting. A failure puts
the url into a cache; when the entry expires, the one timer thread of the cache
takes it out and connects a new client. Each method holds the manager's lock,
so a method is one step; the timer thread works in three, because it only takes
that lock for the last.
-/
namespace Kurento

open Tables Runs TtlCaches

inductive KurentoStatus | CD | LD | DC
  deriving DecidableEq, Repr

def KurentoStatus.getDescription : KurentoStatus → String
  | CD => "연결됨"
  | LD => "연결중"
  | DC => "연결 실패"

theorem KurentoStatus.getDescription_injective : Function.Injective getDescription := by
  intro a b h
  cases a <;> cases b <;> first | rfl | exact absurd h (by decide)

/-- The callbacks given to the builder. -/
inductive ConnectionEvent
  | connected | reconnecting | connectionFailed | reconnected | disconnected
  deriving DecidableEq, Repr

/-- The events that tell of a connection. -/
def ConnectionEvent.up : ConnectionEvent → Bool
  | connected | reconnected => true
  | reconnecting | connectionFailed | disconnected => false

structure KurentoClient where
  kmsUrl : String
  destroyed : Bool
  /-- The connection events it has delivered, the newest last. -/
  delivered : List ConnectionEvent
  deriving DecidableEq

abbrev ClientRef := Nat

/-- Where the cache's executor is in its task: about to remove the entry it found
expired, or about to run the consumer it has removed. -/
inductive TimerThread
  | idle
  | removing (url : String)
  | accepting (url : String)
  deriving DecidableEq

structure KurentoManger where
  map : Table String ClientRef
  statusMap : Table String KurentoStatus
  /-- Every consumer is `this::reconnect`. -/
  ttlCache : Cache String Unit
  /-- Every client that was ever built, by its number. -/
  clients : List KurentoClient
  timerThread : TimerThread

namespace KurentoManger

def init : KurentoManger := ⟨∅, ∅, .empty, [], .idle⟩

def changeStatus (m : KurentoManger) (kmsUrl : String) (kurentoStatus : KurentoStatus) : KurentoManger :=
  { m with statusMap := m.statusMap.insert kmsUrl kurentoStatus }

def kmsDownCheck (m : KurentoManger) (url : String) (now : Nat) : KurentoManger :=
  let q := get hasCome m.ttlCache url now
  match q.2 with
  | none => { m with ttlCache := put q.1 url () 5000 now }
  | some _ => { m with ttlCache := q.1 }

def changeStatusFailed (m : KurentoManger) (kmsUrl : String) (kurentoStatus : KurentoStatus) (now : Nat) :
    KurentoManger :=
  (m.changeStatus kmsUrl kurentoStatus).kmsDownCheck kmsUrl now

/-- The callback that `createKmsClient` gave for the event runs at time `now`. -/
def onEvent (m : KurentoManger) (kmsUrl : String) (event : ConnectionEvent) (now : Nat) : KurentoManger :=
  match event with
  | .connected => m.changeStatus kmsUrl .CD
  | .reconnecting => m.changeStatusFailed kmsUrl .LD now
  | .connectionFailed => m.changeStatusFailed kmsUrl .DC now
  | .reconnected => m.changeStatus kmsUrl .CD
  | .disconnected => m.changeStatusFailed kmsUrl .DC now

def deliver (m : KurentoManger) (c : ClientRef) (kmsUrl : String) (event : ConnectionEvent) (now : Nat) :
    KurentoManger :=
  ({ m with
    clients := m.clients.modify c fun client =>
      { client with delivered := client.delivered ++ [event] } } : KurentoManger).onEvent kmsUrl event now

/-- What the connecting thread delivers inside `connect()`. -/
def deliverAll (m : KurentoManger) (c : ClientRef) (kmsUrl : String) (during : List (ConnectionEvent × Nat)) :
    KurentoManger :=
  during.foldl (fun m e => m.deliver c kmsUrl e.1 e.2) m

/-- `connects` is false when `connect()` throws a `KurentoException`. -/
def createKmsClient (m : KurentoManger) (kmsUrl : String) (during : List (ConnectionEvent × Nat))
    (connects : Bool) : KurentoManger × Option ClientRef :=
  let c := m.clients.length
  (({ m with clients := m.clients ++ [⟨kmsUrl, false, []⟩] } : KurentoManger).deliverAll c kmsUrl during,
    if connects then some c else none)

def register (m : KurentoManger) (url : String) (during : List (ConnectionEvent × Nat)) (connects : Bool) :
    KurentoManger :=
  match m.map.lookup url with
  | some _ => m
  | none =>
    let q := m.createKmsClient url during connects
    match q.2 with
    | some c => { q.1 with statusMap := q.1.statusMap.insert url .LD, map := q.1.map.insert url c }
    | none => q.1

def reconnect (m : KurentoManger) (kmsUrl : String) (during : List (ConnectionEvent × Nat)) (connects : Bool) :
    KurentoManger :=
  let q := m.createKmsClient kmsUrl during connects
  match q.2 with
  | some c => { q.1 with map := q.1.map.insert kmsUrl c }
  | none => q.1

/-- Destroying a client may deliver its disconnected callback, at the time given. -/
def destroy (m : KurentoManger) (c : ClientRef) (url : String) (disconnected : Option Nat) : KurentoManger :=
  let m : KurentoManger :=
    { m with clients := m.clients.modify c fun client => { client with destroyed := true } }
  match disconnected with
  | none => m
  | some now => m.deliver c url .disconnected now

/-- Without a client the call of `destroy()` fails, and nothing has changed. -/
def unregister (m : KurentoManger) (url : String) (disconnected : Option Nat) : KurentoManger :=
  match m.map.lookup url with
  | none => m
  | some c => ({ m with map := m.map.erase url } : KurentoManger).destroy c url disconnected

/-- Clients deliver until they are destroyed, and then at most that they are disconnected. -/
def Delivers (client : KurentoClient) (event : ConnectionEvent) : Prop :=
  client.destroyed = false ∨ event = .disconnected

instance (client : KurentoClient) (event : ConnectionEvent) : Decidable (Delivers client event) :=
  inferInstanceAs (Decidable (_ ∨ _))

def callback (m : KurentoManger) (c : ClientRef) (event : ConnectionEvent) (now : Nat) : KurentoManger :=
  match m.clients[c]? with
  | some client => if Delivers client event then m.deliver c client.kmsUrl event now else m
  | none => m

/-- The timer thread starts on a scheduled task that is due. -/
def expiration (m : KurentoManger) (task : String × Nat) (now : Nat) : KurentoManger :=
  if m.timerThread = .idle ∧ task ∈ m.ttlCache.timers ∧ task.2 ≤ now then
    { m with
      ttlCache := { m.ttlCache with timers := m.ttlCache.timers.erase task }
      timerThread := if isExpired hasCome m.ttlCache task.1 now then .removing task.1 else .idle }
  else m

/-- If the entry has gone in the meantime, the task ends on the missing consumer. -/
def removal (m : KurentoManger) : KurentoManger :=
  match m.timerThread with
  | .removing url =>
    let q := remove m.ttlCache url
    { m with
      ttlCache := q.1
      timerThread := match q.2 with
        | some _ => .accepting url
        | none => .idle }
  | _ => m

def acceptance (m : KurentoManger) (during : List (ConnectionEvent × Nat)) (connects : Bool) : KurentoManger :=
  match m.timerThread with
  | .accepting url => { m.reconnect url during connects with timerThread := .idle }
  | _ => m

end KurentoManger

inductive Event
  | register (url : String) (during : List (ConnectionEvent × Nat)) (connects : Bool)
  | unregister (url : String) (disconnected : Option Nat)
  | callback (c : ClientRef) (event : ConnectionEvent) (now : Nat)
  | expiration (task : String × Nat) (now : Nat)
  | removal
  | acceptance (during : List (ConnectionEvent × Nat)) (connects : Bool)

def step (m : KurentoManger) : Event → KurentoManger
  | .register url during connects => m.register url during connects
  | .unregister url disconnected => m.unregister url disconnected
  | .callback c event now => m.callback c event now
  | .expiration task now => m.expiration task now
  | .removal => m.removal
  | .acceptance during connects => m.acceptance during connects

/-! ## What a delivered event changes -/

/-- The status an event leaves behind. -/
def ConnectionEvent.status : ConnectionEvent → KurentoStatus
  | connected | reconnected => .CD
  | reconnecting => .LD
  | connectionFailed | disconnected => .DC

theorem ConnectionEvent.status_eq_CD_iff (event : ConnectionEvent) : event.status = .CD ↔ event.up = true := by
  cases event <;> decide

namespace KurentoManger

theorem kmsDownCheck_eq (m : KurentoManger) (url : String) (now : Nat) :
    m.kmsDownCheck url now = { m with ttlCache := (m.kmsDownCheck url now).ttlCache } := by
  unfold kmsDownCheck
  dsimp only
  split
  · rfl
  · rfl

theorem onEvent_eq (m : KurentoManger) (kmsUrl : String) (event : ConnectionEvent) (now : Nat) :
    m.onEvent kmsUrl event now =
      if event.up then m.changeStatus kmsUrl event.status
      else (m.changeStatus kmsUrl event.status).kmsDownCheck kmsUrl now := by
  cases event <;> rfl

@[simp] theorem deliver_map (m : KurentoManger) (c : ClientRef) (url : String) (event : ConnectionEvent)
    (now : Nat) : (m.deliver c url event now).map = m.map := by
  unfold deliver
  rw [onEvent_eq]
  split
  · rfl
  · rw [kmsDownCheck_eq]
    rfl

@[simp] theorem deliver_timerThread (m : KurentoManger) (c : ClientRef) (url : String)
    (event : ConnectionEvent) (now : Nat) :
    (m.deliver c url event now).timerThread = m.timerThread := by
  unfold deliver
  rw [onEvent_eq]
  split
  · rfl
  · rw [kmsDownCheck_eq]
    rfl

theorem deliver_clients (m : KurentoManger) (c : ClientRef) (url : String) (event : ConnectionEvent)
    (now : Nat) :
    (m.deliver c url event now).clients =
      m.clients.modify c fun client => { client with delivered := client.delivered ++ [event] } := by
  unfold deliver
  rw [onEvent_eq]
  split
  · rfl
  · rw [kmsDownCheck_eq]
    rfl

theorem deliver_status (m : KurentoManger) (c : ClientRef) (url : String) (event : ConnectionEvent)
    (now : Nat) (u : String) :
    (m.deliver c url event now).statusMap.lookup u =
      if u = url then some event.status else m.statusMap.lookup u := by
  unfold deliver
  rw [onEvent_eq]
  split
  · exact lookup_put m.statusMap url u event.status
  · rw [kmsDownCheck_eq]
    exact lookup_put m.statusMap url u event.status

/-- The cache changes only by what `kmsDownCheck` does for a failure. -/
theorem deliver_ttlCache (m : KurentoManger) (c : ClientRef) (url : String) (event : ConnectionEvent)
    (now : Nat) :
    (m.deliver c url event now).ttlCache =
      if event.up then m.ttlCache else (m.kmsDownCheck url now).ttlCache := by
  unfold deliver
  rw [onEvent_eq]
  split
  · rfl
  · unfold kmsDownCheck
    dsimp only [changeStatus]
    split
    · rfl
    · rfl

/-- A down check keeps the entry of its url or makes a new one, and its timer with it. -/
theorem kmsDownCheck_ttlCache (m : KurentoManger) (url : String) (now : Nat) :
    ((m.ttlCache.cache.lookup url).isSome = true ∧ (m.kmsDownCheck url now).ttlCache = m.ttlCache) ∨
    ((∀ k, (m.kmsDownCheck url now).ttlCache.cache.lookup k =
        if k = url then some () else m.ttlCache.cache.lookup k) ∧
      (∀ k, (m.kmsDownCheck url now).ttlCache.expirationTimes.lookup k =
        if k = url then some (now + 5000) else m.ttlCache.expirationTimes.lookup k) ∧
      (m.kmsDownCheck url now).ttlCache.timers = (url, now + 5000) :: m.ttlCache.timers) := by
  unfold kmsDownCheck TtlCaches.get
  cases hl : m.ttlCache.cache.lookup url with
  | none =>
    right
    exact ⟨fun k => lookup_put _ url k (), fun k => lookup_put _ url k _, rfl⟩
  | some value =>
    by_cases he : isExpired hasCome m.ttlCache url now = true
    · right
      simp only [he, if_true]
      refine ⟨fun k => ?_, fun k => ?_, rfl⟩
      · rw [lookup_cache_put, lookup_cache_remove]
        split
        · rfl
        · rfl
      · refine (lookup_put _ url k _).trans ?_
        split
        · rfl
        · rename_i hk
          exact (lookup_remove m.ttlCache.expirationTimes url k).trans (if_neg hk)
    · left
      simp [he]

theorem kmsDownCheck_pending (m : KurentoManger) (url : String) (now : Nat) :
    ((m.kmsDownCheck url now).ttlCache.cache.lookup url).isSome = true := by
  rcases kmsDownCheck_ttlCache m url now with ⟨hsome, he⟩ | ⟨hcache, -, -⟩
  · rw [he]
    exact hsome
  · rw [hcache, if_pos rfl]
    rfl

theorem deliver_cache_other (m : KurentoManger) (c : ClientRef) {url k : String} (hk : k ≠ url)
    (event : ConnectionEvent) (now : Nat) :
    (m.deliver c url event now).ttlCache.cache.lookup k = m.ttlCache.cache.lookup k := by
  rw [deliver_ttlCache]
  split
  · rfl
  · rcases kmsDownCheck_ttlCache m url now with ⟨-, he⟩ | ⟨hcache, -, -⟩
    · rw [he]
    · rw [hcache, if_neg hk]

/-! ## What a list of delivered events changes -/

theorem deliverAll_invariant {I : KurentoManger → Prop} {c : ClientRef} {url : String}
    (hI : ∀ m event now, I m → I (m.deliver c url event now)) (during : List (ConnectionEvent × Nat))
    (m : KurentoManger) (hm : I m) : I (m.deliverAll c url during) := by
  induction during generalizing m with
  | nil => exact hm
  | cons e during ih => exact ih (m.deliver c url e.1 e.2) (hI m e.1 e.2 hm)

@[simp] theorem deliverAll_map (m : KurentoManger) (c : ClientRef) (url : String)
    (during : List (ConnectionEvent × Nat)) : (m.deliverAll c url during).map = m.map :=
  deliverAll_invariant (I := fun m' => m'.map = m.map)
    (fun _ _ _ hm => (deliver_map _ c url _ _).trans hm) during m rfl

@[simp] theorem deliverAll_timerThread (m : KurentoManger) (c : ClientRef) (url : String)
    (during : List (ConnectionEvent × Nat)) :
    (m.deliverAll c url during).timerThread = m.timerThread :=
  deliverAll_invariant (I := fun m' => m'.timerThread = m.timerThread)
    (fun _ _ _ hm => (deliver_timerThread _ c url _ _).trans hm) during m rfl

theorem deliverAll_snoc (m : KurentoManger) (c : ClientRef) (url : String)
    (during : List (ConnectionEvent × Nat)) (e : ConnectionEvent × Nat) :
    m.deliverAll c url (during ++ [e]) = (m.deliverAll c url during).deliver c url e.1 e.2 := by
  simp [deliverAll]

/-- The newest event of `during`, if there is one. -/
def newest (during : List (ConnectionEvent × Nat)) : Option ConnectionEvent := during.getLast?.map Prod.fst

theorem deliverAll_status (m : KurentoManger) (c : ClientRef) (url : String)
    (during : List (ConnectionEvent × Nat)) (u : String) :
    (m.deliverAll c url during).statusMap.lookup u =
      if u = url then ((newest during).map ConnectionEvent.status).or (m.statusMap.lookup u)
      else m.statusMap.lookup u := by
  induction during using List.reverseRecOn with
  | nil => simp [deliverAll, newest]
  | append_singleton during e ih =>
    rw [deliverAll_snoc, deliver_status, ih]
    by_cases hu : u = url
    · simp [hu, newest]
    · simp [hu]

theorem deliverAll_clients (m : KurentoManger) (c : ClientRef) (url : String)
    (during : List (ConnectionEvent × Nat)) :
    (m.deliverAll c url during).clients =
      m.clients.modify c fun client =>
        { client with delivered := client.delivered ++ during.map Prod.fst } := by
  induction during using List.reverseRecOn with
  | nil =>
    simp only [List.map_nil, List.append_nil]
    exact (List.modify_id c m.clients).symm
  | append_singleton during e ih =>
    rw [deliverAll_snoc, deliver_clients, ih, List.modify_modify_eq]
    congr 1
    funext client
    simp

@[simp] theorem destroy_map (m : KurentoManger) (c : ClientRef) (url : String) (disconnected : Option Nat) :
    (m.destroy c url disconnected).map = m.map := by
  cases disconnected with
  | none => rfl
  | some now => exact deliver_map _ c url .disconnected now

theorem destroy_status (m : KurentoManger) (c : ClientRef) {url u : String} (hu : u ≠ url)
    (disconnected : Option Nat) :
    (m.destroy c url disconnected).statusMap.lookup u = m.statusMap.lookup u := by
  cases disconnected with
  | none => rfl
  | some now => exact (deliver_status _ c url .disconnected now u).trans (if_neg hu)

theorem unregister_known {m : KurentoManger} {url : String} {c : ClientRef} (h : m.map.lookup url = some c)
    (disconnected : Option Nat) :
    m.unregister url disconnected =
      ({ m with map := m.map.erase url } : KurentoManger).destroy c url disconnected := by
  simp only [unregister, h]

theorem unregister_unknown {m : KurentoManger} {url : String} (h : m.map.lookup url = none)
    (disconnected : Option Nat) : m.unregister url disconnected = m := by
  simp only [unregister, h]

/-! ## The timer thread leaves the servers alone until it connects -/

theorem expiration_eq (m : KurentoManger) (task : String × Nat) (now : Nat) :
    m.expiration task now =
      { m with
        ttlCache := (m.expiration task now).ttlCache
        timerThread := (m.expiration task now).timerThread } := by
  unfold expiration
  split
  · rfl
  · rfl

theorem removal_eq (m : KurentoManger) :
    m.removal = { m with ttlCache := m.removal.ttlCache, timerThread := m.removal.timerThread } := by
  unfold removal
  split
  · rfl
  · rfl

/-- The consumer runs, or there is none to run. -/
theorem acceptance_cases (m : KurentoManger) (during : List (ConnectionEvent × Nat)) (connects : Bool) :
    (∃ url, m.timerThread = .accepting url ∧
      m.acceptance during connects = { m.reconnect url during connects with timerThread := .idle }) ∨
    ((∀ url, m.timerThread ≠ .accepting url) ∧ m.acceptance during connects = m) := by
  cases ht : m.timerThread with
  | idle => exact .inr ⟨by simp, by simp [acceptance, ht]⟩
  | removing url => exact .inr ⟨by simp, by simp [acceptance, ht]⟩
  | accepting url => exact .inl ⟨url, rfl, by simp [acceptance, ht]⟩

/-! ## How connecting ends -/

section

variable (m : KurentoManger) (url : String) (during : List (ConnectionEvent × Nat))

theorem register_known {m : KurentoManger} {url : String} {c : ClientRef} (h : m.map.lookup url = some c)
    (during : List (ConnectionEvent × Nat)) (connects : Bool) : m.register url during connects = m := by
  simp only [register, h]

theorem register_failed {m : KurentoManger} {url : String} (h : m.map.lookup url = none)
    (during : List (ConnectionEvent × Nat)) :
    m.register url during false = (m.createKmsClient url during false).1 := by
  simp [register, h, createKmsClient]

theorem register_connected {m : KurentoManger} {url : String} (h : m.map.lookup url = none)
    (during : List (ConnectionEvent × Nat)) :
    m.register url during true =
      { (m.createKmsClient url during true).1 with
        statusMap := (m.createKmsClient url during true).1.statusMap.insert url .LD
        map := (m.createKmsClient url during true).1.map.insert url m.clients.length } := by
  simp [register, h, createKmsClient]

theorem reconnect_failed : m.reconnect url during false = (m.createKmsClient url during false).1 := rfl

theorem reconnect_connected :
    m.reconnect url during true =
      { (m.createKmsClient url during true).1 with
        map := (m.createKmsClient url during true).1.map.insert url m.clients.length } := rfl

@[simp] theorem createKmsClient_map (connects : Bool) :
    (m.createKmsClient url during connects).1.map = m.map :=
  deliverAll_map _ _ _ _

theorem createKmsClient_status (connects : Bool) (u : String) :
    (m.createKmsClient url during connects).1.statusMap.lookup u =
      if u = url then ((newest during).map ConnectionEvent.status).or (m.statusMap.lookup u)
      else m.statusMap.lookup u :=
  deliverAll_status _ _ _ _ u

theorem createKmsClient_cache_other (m : KurentoManger) {url k : String} (hk : k ≠ url)
    (during : List (ConnectionEvent × Nat)) (connects : Bool) :
    (m.createKmsClient url during connects).1.ttlCache.cache.lookup k = m.ttlCache.cache.lookup k :=
  deliverAll_invariant (I := fun m' => m'.ttlCache.cache.lookup k = m.ttlCache.cache.lookup k)
    (fun m' event now h => (deliver_cache_other m' _ hk event now).trans h) during _ rfl

@[simp] theorem createKmsClient_timerThread (m : KurentoManger) (url : String)
    (during : List (ConnectionEvent × Nat)) (connects : Bool) :
    (m.createKmsClient url during connects).1.timerThread = m.timerThread :=
  deliverAll_timerThread _ _ _ _

/-- The clients from before are as they were, and the new one has delivered the events
that came while it connected. -/
theorem createKmsClient_clients (connects : Bool) :
    (m.createKmsClient url during connects).1.clients =
      m.clients ++ [⟨url, false, during.map Prod.fst⟩] := by
  refine (deliverAll_clients _ _ _ _).trans ?_
  rw [List.modify_eq_take_cons_drop]
  · simp
  · simp

end

end KurentoManger

end Kurento
