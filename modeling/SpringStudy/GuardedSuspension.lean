import SpringStudy.Runs

/-!
# A guarded queue between a client and a server

The client offers requests to a queue and notifies; the server takes them, or waits
on the queue when there is none. The main thread starts both, sets `shouldStop` when
a key is pressed, notifies once more and joins them. The flag is read outside the
`synchronized` blocks, and so the server may begin to wait when the last
notification is over.
-/
namespace GuardedSuspension

open Runs

/-- Where the client is; `block` is its `synchronized` block. -/
inductive Client where
  | fresh
  | check
  | block
  | sleep
  | done
  deriving DecidableEq, Repr

/-- Where the server is; in `suspended` it has called `wait`. -/
inductive Server where
  | fresh
  | check
  | block
  | suspended
  | done
  deriving DecidableEq, Repr

/-- Where `startUp` is. -/
inductive Main where
  | start
  | startClient
  | startServer
  | press
  | read
  | setStop
  | notify
  | joinClient
  | joinServer
  | allDone
  | done
  deriving DecidableEq, Repr

inductive Line where
  | processStart
  | pressAnyKey
  | client (request : String)
  | server (request : String)
  | wait
  | awake
  | allDone
  deriving DecidableEq, Repr

structure Process where
  shouldStop : Bool
  requests : List String
  /-- The server is in the wait set of `requests`; nobody else waits. -/
  waiting : Bool
  output : List Line
  client : Client
  server : Server
  main : Main
  deriving DecidableEq, Repr

def init : Process := ⟨false, [], false, [], .fresh, .fresh, .start⟩

/-! A `synchronized` block, up to its end or to `wait`, is one step: what it touches is
touched in such blocks only. -/

def doClient (now : Nat) (s : Process) : Process :=
  match s.client with
  | .check => { s with client := if s.shouldStop then .done else .block }
  | .block =>
    { s with
      requests := s.requests ++ [toString now]
      waiting := false
      output := s.output ++ [.client (toString now)]
      client := .sleep }
  | .sleep => { s with client := .check }
  | .fresh | .done => s

def doServer (s : Process) : Process :=
  match s.server with
  | .check => { s with server := if s.shouldStop then .done else .block }
  | .block =>
    match s.requests with
    | request :: rest => { s with requests := rest, output := s.output ++ [.server request], server := .check }
    | [] => { s with waiting := true, output := s.output ++ [.wait], server := .suspended }
  | .suspended => if s.waiting then s else { s with output := s.output ++ [.awake], server := .check }
  | .fresh | .done => s

def startUp (s : Process) : Process :=
  match s.main with
  | .start => { s with output := s.output ++ [.processStart], main := .startClient }
  | .startClient => { s with client := .check, main := .startServer }
  | .startServer => { s with server := .check, main := .press }
  | .press => { s with output := s.output ++ [.pressAnyKey], main := .read }
  | .read => { s with main := .setStop }
  | .setStop => { s with shouldStop := true, main := .notify }
  | .notify => { s with waiting := false, main := .joinClient }
  | .joinClient => if s.client = .done then { s with main := .joinServer } else s
  | .joinServer => if s.server = .done then { s with main := .allDone } else s
  | .allDone => { s with output := s.output ++ [.allDone], main := .done }
  | .done => s

inductive Event where
  | client (now : Nat)
  | server
  | main
  /-- A waiting thread may wake up without a notification. -/
  | spuriousWakeup
  deriving DecidableEq, Repr

def step (s : Process) : Event → Process
  | .client now => doClient now s
  | .server => doServer s
  | .main => startUp s
  | .spuriousWakeup => { s with waiting := false }

/-! ## The queue -/

def Line.offered : Line → Option String
  | .client request => some request
  | _ => none

def Line.handled : Line → Option String
  | .server request => some request
  | _ => none

/-- What has been offered has been handled or is in the queue, in the order in which it came;
and the server does not wait while there is something in it. -/
structure Queued (s : Process) : Prop where
  order : s.output.filterMap Line.offered = s.output.filterMap Line.handled ++ s.requests
  waiting : s.waiting = true → s.server = .suspended ∧ s.requests = []

/-- A line that tells of no request changes nothing. -/
theorem order_snoc {output : List Line} {requests : List String} {line : Line}
    (hoffered : line.offered = none) (hhandled : line.handled = none)
    (h : output.filterMap Line.offered = output.filterMap Line.handled ++ requests) :
    (output ++ [line]).filterMap Line.offered = (output ++ [line]).filterMap Line.handled ++ requests := by
  simp only [List.filterMap_append, List.filterMap_cons, List.filterMap_nil, hoffered, hhandled, List.append_nil]
  exact h

theorem doClient_queued (now : Nat) {s : Process} (h : Queued s) : Queued (doClient now s) := by
  unfold doClient
  split
  · exact ⟨h.order, h.waiting⟩
  · refine ⟨?_, fun hw => by cases hw⟩
    simp only [List.filterMap_append, h.order, List.append_assoc]
    rfl
  · exact ⟨h.order, h.waiting⟩
  · exact h
  · exact h

theorem doServer_queued {s : Process} (h : Queued s) : Queued (doServer s) := by
  have hawake : s.server ≠ .suspended → ¬ s.waiting = true := fun hne hw => hne (h.waiting hw).1
  unfold doServer
  split
  · next hserver =>
    refine ⟨h.order, fun hw => absurd hw (hawake ?_)⟩
    rw [hserver]
    decide
  · next hserver =>
    have hnot : ¬ s.waiting = true := hawake (by rw [hserver]; decide)
    have horder := h.order
    split
    · next request rest hrequests =>
      refine ⟨?_, fun hw => absurd hw hnot⟩
      rw [hrequests] at horder
      simp only [List.filterMap_append, horder, List.append_assoc]
      exact congrArg _ (List.append_nil _)
    · next hrequests => exact ⟨order_snoc rfl rfl horder, fun _ => ⟨rfl, hrequests⟩⟩
  · split
    · exact h
    · next hnot => exact ⟨order_snoc rfl rfl h.order, fun hw => absurd hw hnot⟩
  · exact h
  · exact h

theorem startUp_queued {s : Process} (h : Queued s) (hserver : s.main = .startServer → s.server = .fresh) :
    Queued (startUp s) := by
  unfold startUp
  split
  · exact ⟨order_snoc rfl rfl h.order, h.waiting⟩
  · exact ⟨h.order, h.waiting⟩
  · next hmain =>
    refine ⟨h.order, fun hw => ?_⟩
    have hsuspended := (h.waiting hw).1
    rw [hserver hmain] at hsuspended
    cases hsuspended
  · exact ⟨order_snoc rfl rfl h.order, h.waiting⟩
  · exact ⟨h.order, h.waiting⟩
  · exact ⟨h.order, h.waiting⟩
  · exact ⟨h.order, fun hw => by cases hw⟩
  · split
    · exact ⟨h.order, h.waiting⟩
    · exact h
  · split
    · exact ⟨h.order, h.waiting⟩
    · exact h
  · exact ⟨order_snoc rfl rfl h.order, h.waiting⟩
  · exact h

/-! ## How far `startUp` has come -/

/-- How far `startUp` has come, in steps. -/
def Main.stage : Main → Nat
  | .start => 0
  | .startClient => 1
  | .startServer => 2
  | .press => 3
  | .read => 4
  | .setStop => 5
  | .notify => 6
  | .joinClient => 7
  | .joinServer => 8
  | .allDone => 9
  | .done => 10

/-- What the threads can tell from how far `startUp` has come. -/
structure Staged (s : Process) : Prop where
  shouldStop : s.shouldStop = true ↔ 6 ≤ s.main.stage
  client : s.client = .fresh ↔ s.main.stage ≤ 1
  server : s.server = .fresh ↔ s.main.stage ≤ 2
  clientDone : 8 ≤ s.main.stage → s.client = .done
  serverDone : 9 ≤ s.main.stage → s.server = .done

theorem doClient_frame (now : Nat) (s : Process) :
    (doClient now s).shouldStop = s.shouldStop ∧ (doClient now s).server = s.server ∧
      (doClient now s).main = s.main ∧ ((doClient now s).client = .fresh ↔ s.client = .fresh) ∧
      (s.client = .done → (doClient now s).client = .done) := by
  unfold doClient
  split
  · next hc =>
    rw [hc]
    split <;> simp
  · next hc =>
    rw [hc]
    simp
  · next hc =>
    rw [hc]
    simp
  · exact ⟨rfl, rfl, rfl, Iff.rfl, id⟩
  · exact ⟨rfl, rfl, rfl, Iff.rfl, id⟩

theorem doServer_frame (s : Process) :
    (doServer s).shouldStop = s.shouldStop ∧ (doServer s).client = s.client ∧
      (doServer s).main = s.main ∧ ((doServer s).server = .fresh ↔ s.server = .fresh) ∧
      (s.server = .done → (doServer s).server = .done) := by
  unfold doServer
  split
  · next hs =>
    rw [hs]
    split <;> simp
  · next hs =>
    rw [hs]
    split <;> simp
  · next hs =>
    split
    · exact ⟨rfl, rfl, rfl, Iff.rfl, id⟩
    · rw [hs]
      simp
  · exact ⟨rfl, rfl, rfl, Iff.rfl, id⟩
  · exact ⟨rfl, rfl, rfl, Iff.rfl, id⟩

/-- A step of `startUp` between two places that the threads cannot tell apart. -/
theorem Staged.goOn {s : Process} (h : Staged s) (main : Main) (output : List Line) (waiting : Bool)
    (hsame : (6 ≤ main.stage ↔ 6 ≤ s.main.stage) ∧ (main.stage ≤ 1 ↔ s.main.stage ≤ 1) ∧
      (main.stage ≤ 2 ↔ s.main.stage ≤ 2) ∧ (8 ≤ main.stage ↔ 8 ≤ s.main.stage) ∧
      (9 ≤ main.stage ↔ 9 ≤ s.main.stage)) :
    Staged { s with main := main, output := output, waiting := waiting } := by
  obtain ⟨h6, h1, h2, h8, h9⟩ := hsame
  exact ⟨h.shouldStop.trans h6.symm, h.client.trans h1.symm, h.server.trans h2.symm,
    fun h8' => h.clientDone (h8.mp h8'), fun h9' => h.serverDone (h9.mp h9')⟩

theorem startUp_staged {s : Process} (h : Staged s) : Staged (startUp s) := by
  unfold startUp
  split
  · next hmain => exact h.goOn .startClient _ s.waiting (by rw [hmain]; decide)
  · next hmain =>
    obtain ⟨hstop, -, hserver, -, -⟩ := h
    rw [hmain] at hstop hserver
    exact ⟨hstop.trans (by simp [Main.stage]), by simp [Main.stage], hserver.trans (by simp [Main.stage]), by simp [Main.stage],
      by simp [Main.stage]⟩
  · next hmain =>
    obtain ⟨hstop, hclient, -, -, -⟩ := h
    rw [hmain] at hstop hclient
    exact ⟨hstop.trans (by simp [Main.stage]), hclient.trans (by simp [Main.stage]), by simp [Main.stage], by simp [Main.stage],
      by simp [Main.stage]⟩
  · next hmain => exact h.goOn .read _ s.waiting (by rw [hmain]; decide)
  · next hmain => exact h.goOn .setStop s.output s.waiting (by rw [hmain]; decide)
  · next hmain =>
    obtain ⟨-, hclient, hserver, -, -⟩ := h
    rw [hmain] at hclient hserver
    exact ⟨by simp [Main.stage], hclient.trans (by simp [Main.stage]), hserver.trans (by simp [Main.stage]), by simp [Main.stage],
      by simp [Main.stage]⟩
  · next hmain => exact h.goOn .joinClient s.output false (by rw [hmain]; decide)
  · next hmain =>
    split
    · next hdone =>
      obtain ⟨hstop, hclient, hserver, -, -⟩ := h
      rw [hmain] at hstop hclient hserver
      exact ⟨hstop.trans (by simp [Main.stage]), hclient.trans (by simp [Main.stage]), hserver.trans (by simp [Main.stage]), fun _ => hdone,
        by simp [Main.stage]⟩
    · exact h
  · next hmain =>
    split
    · next hdone =>
      obtain ⟨hstop, hclient, hserver, hclientDone, -⟩ := h
      rw [hmain] at hstop hclient hserver hclientDone
      exact ⟨hstop.trans (by simp [Main.stage]), hclient.trans (by simp [Main.stage]), hserver.trans (by simp [Main.stage]),
        fun _ => hclientDone (by decide), fun _ => hdone⟩
    · exact h
  · next hmain => exact h.goOn .done _ s.waiting (by rw [hmain]; decide)
  · exact h

theorem step_staged (s : Process) (e : Event) (h : Staged s) : Staged (step s e) := by
  cases e with
  | client now =>
    obtain ⟨hstop, hserver, hmain, hfresh, hdone⟩ := doClient_frame now s
    show Staged (doClient now s)
    exact ⟨by rw [hstop, hmain]; exact h.shouldStop, by rw [hfresh, hmain]; exact h.client,
      by rw [hserver, hmain]; exact h.server, by rw [hmain]; exact fun h8 => hdone (h.clientDone h8),
      by rw [hserver, hmain]; exact h.serverDone⟩
  | server =>
    obtain ⟨hstop, hclient, hmain, hfresh, hdone⟩ := doServer_frame s
    show Staged (doServer s)
    exact ⟨by rw [hstop, hmain]; exact h.shouldStop, by rw [hclient, hmain]; exact h.client,
      by rw [hfresh, hmain]; exact h.server, by rw [hclient, hmain]; exact h.clientDone,
      by rw [hmain]; exact fun h9 => hdone (h.serverDone h9)⟩
  | main => exact startUp_staged h
  | spuriousWakeup => exact ⟨h.shouldStop, h.client, h.server, h.clientDone, h.serverDone⟩

theorem step_queued (s : Process) (e : Event) (h : Queued s) (hstaged : Staged s) : Queued (step s e) := by
  cases e with
  | client now => exact doClient_queued now h
  | server => exact doServer_queued h
  | main =>
    refine startUp_queued h fun hmain => hstaged.server.mpr ?_
    rw [hmain]
    decide
  | spuriousWakeup => exact ⟨h.order, fun hw => by cases hw⟩

theorem run_staged (events : List Event) : Queued (run step init events) ∧ Staged (run step init events) := by
  refine run_invariant (I := fun s => Queued s ∧ Staged s)
    (fun s e h => ⟨step_queued s e h.1 h.2, step_staged s e h.2⟩) _ events ⟨⟨rfl, fun hw => by cases hw⟩, ?_⟩
  constructor <;> decide

/-- However the threads interleave, and whether the server wakes up by itself or not: it handles the
requests in the order in which the client has offered them, each one once, those in the queue are the
ones still to be handled, and it waits only when there is none. -/
theorem run_handles_in_order (events : List Event) :
    let s := run step init events
    s.output.filterMap Line.offered = s.output.filterMap Line.handled ++ s.requests ∧
      (s.waiting = true → s.requests = []) :=
  ⟨(run_staged events).1.order, fun hw => ((run_staged events).1.waiting hw).2⟩

/-! ## Shutting down -/

/-- `startUp` has notified for the last time, the client will offer nothing more, and the server
waits, or has passed its check and is going to. -/
def Doomed (s : Process) : Prop :=
  (s.main = .joinClient ∨ s.main = .joinServer) ∧
    (s.client = .check ∨ s.client = .sleep ∨ s.client = .done) ∧
    (s.waiting = true ∨ s.server = .block ∧ s.requests = [])

instance decidableDoomed (s : Process) : Decidable (Doomed s) :=
  inferInstanceAs (Decidable ((s.main = .joinClient ∨ s.main = .joinServer) ∧
    (s.client = .check ∨ s.client = .sleep ∨ s.client = .done) ∧
    (s.waiting = true ∨ s.server = .block ∧ s.requests = [])))

theorem Doomed.shouldStop {s : Process} (h : Doomed s) (hs : Staged s) : s.shouldStop = true := by
  apply hs.shouldStop.mpr
  rcases h.1 with hm | hm <;> rw [hm] <;> decide

theorem doClient_doomed (now : Nat) {s : Process} (h : Doomed s) (hstop : s.shouldStop = true) :
    Doomed (doClient now s) := by
  obtain ⟨hm, hc | hc | hc, hw⟩ := h
  · have heq : doClient now s = { s with client := .done } := by simp [doClient, hc, hstop]
    rw [heq]
    exact ⟨hm, .inr (.inr rfl), hw⟩
  · have heq : doClient now s = { s with client := .check } := by simp [doClient, hc]
    rw [heq]
    exact ⟨hm, .inl rfl, hw⟩
  · have heq : doClient now s = s := by simp [doClient, hc]
    rw [heq]
    exact ⟨hm, .inr (.inr hc), hw⟩

theorem doServer_doomed {s : Process} (h : Doomed s) (hq : Queued s) : Doomed (doServer s) := by
  obtain ⟨hm, hc, hw | ⟨hs, hempty⟩⟩ := h
  · have heq : doServer s = s := by simp [doServer, (hq.waiting hw).1, hw]
    rw [heq]
    exact ⟨hm, hc, .inl hw⟩
  · have heq : doServer s = { s with waiting := true, output := s.output ++ [.wait], server := .suspended } := by
      simp [doServer, hs, hempty]
    rw [heq]
    exact ⟨hm, hc, .inl rfl⟩

theorem startUp_doomed {s : Process} (h : Doomed s) (hq : Queued s) : Doomed (startUp s) := by
  obtain ⟨hm | hm, hc, hw⟩ := h
  · by_cases hdone : s.client = .done
    · have heq : startUp s = { s with main := .joinServer } := by simp [startUp, hm, hdone]
      rw [heq]
      exact ⟨.inr rfl, hc, hw⟩
    · have heq : startUp s = s := by simp [startUp, hm, hdone]
      rw [heq]
      exact ⟨.inl hm, hc, hw⟩
  · have hserver : s.server ≠ .done := by
      rcases hw with hw | ⟨hs, -⟩
      · rw [(hq.waiting hw).1]
        decide
      · rw [hs]
        decide
    have heq : startUp s = s := by simp [startUp, hm, hserver]
    rw [heq]
    exact ⟨.inr hm, hc, hw⟩

/-- Without a wake-up of its own the server never comes back. -/
theorem step_doomed (s : Process) (e : Event) (he : e ≠ .spuriousWakeup) (h : Doomed s) (hq : Queued s)
    (hs : Staged s) : Doomed (step s e) := by
  cases e with
  | client now => exact doClient_doomed now h (h.shouldStop hs)
  | server => exact doServer_doomed h hq
  | main => exact startUp_doomed h hq
  | spuriousWakeup => exact absurd rfl he

/-- The threads can be scheduled so that `startUp` returns, without a spurious wake-up. -/
def Returns (s : Process) : Prop :=
  ∃ more, (∀ e ∈ more, e ≠ .spuriousWakeup) ∧ (run step s more).main = .done

theorem Returns.of_step {s : Process} (e : Event) (he : e ≠ .spuriousWakeup) (h : Returns (step s e)) :
    Returns s := by
  obtain ⟨more, hmore, hdone⟩ := h
  exact ⟨e :: more, List.forall_mem_cons.mpr ⟨he, hmore⟩, hdone⟩

section
variable {s : Process}

/-- Both threads have ended. -/
theorem returns_of_ended (hmain : s.main = .joinClient ∨ s.main = .joinServer) (hc : s.client = .done)
    (hs : s.server = .done) : Returns s := by
  rcases hmain with hm | hm
  · refine ⟨[.main, .main, .main], by decide, ?_⟩
    simp [run, step, startUp, hm, hc, hs]
  · refine ⟨[.main, .main], by decide, ?_⟩
    simp [run, step, startUp, hm, hs]

theorem returns_of_check (hmain : s.main = .joinClient ∨ s.main = .joinServer) (hstop : s.shouldStop = true)
    (hc : s.client = .done) (hs : s.server = .check) : Returns s := by
  refine .of_step .server (by decide) ?_
  have heq : step s .server = { s with server := .done } := by simp [step, doServer, hs, hstop]
  rw [heq]
  exact returns_of_ended hmain hc rfl

/-- The client has ended, and the server is not going to wait. -/
theorem returns_of_awake (hmain : s.main = .joinClient ∨ s.main = .joinServer) (hstop : s.shouldStop = true)
    (hc : s.client = .done) (hfresh : s.server ≠ .fresh) (hw : s.waiting = false)
    (hblock : s.server = .block → s.requests ≠ []) : Returns s := by
  cases hs : s.server with
  | fresh => exact absurd hs hfresh
  | check => exact returns_of_check hmain hstop hc hs
  | block =>
    obtain ⟨request, rest, hr⟩ := List.exists_cons_of_ne_nil (hblock hs)
    refine .of_step .server (by decide) ?_
    have heq : step s .server =
        { s with requests := rest, output := s.output ++ [.server request], server := .check } := by
      simp [step, doServer, hs, hr]
    rw [heq]
    exact returns_of_check hmain hstop hc rfl
  | suspended =>
    refine .of_step .server (by decide) ?_
    have heq : step s .server = { s with output := s.output ++ [.awake], server := .check } := by
      simp [step, doServer, hs, hw]
    rw [heq]
    exact returns_of_check hmain hstop hc rfl
  | done => exact returns_of_ended hmain hc hs

/-- The client offers nothing more, and the server is not going to wait. -/
theorem returns_of_quiet (hmain : s.main = .joinClient ∨ s.main = .joinServer) (hstop : s.shouldStop = true)
    (hc : s.client = .check ∨ s.client = .sleep ∨ s.client = .done) (hfresh : s.server ≠ .fresh)
    (hw : s.waiting = false) (hblock : s.server = .block → s.requests ≠ []) : Returns s := by
  have hcheck : ∀ s' : Process, s' = { s with client := .check } → Returns s' := by
    rintro s' rfl
    refine .of_step (.client 0) (by decide) ?_
    have heq : step { s with client := .check } (.client 0) = { s with client := .done } := by
      simp [step, doClient, hstop]
    rw [heq]
    exact returns_of_awake hmain hstop rfl hfresh hw hblock
  rcases hc with hc | hc | hc
  · apply hcheck
    rw [← hc]
  · refine .of_step (.client 0) (by decide) (hcheck _ ?_)
    simp [step, doClient, hc]
  · exact returns_of_awake hmain hstop hc hfresh hw hblock

theorem returns_of_not_doomed (hs : Staged s) (hmain : s.main = .joinClient ∨ s.main = .joinServer)
    (hdoomed : ¬ Doomed s) : Returns s := by
  have hstage : 7 ≤ s.main.stage := by rcases hmain with hm | hm <;> rw [hm] <;> decide
  have hstop : s.shouldStop = true := hs.shouldStop.mpr (by omega)
  have hclient : s.client ≠ .fresh := fun hf => by have := hs.client.mp hf; omega
  have hserver : s.server ≠ .fresh := fun hf => by have := hs.server.mp hf; omega
  by_cases hblock : s.client = .block
  · -- one more request wakes the server, if it waits, and keeps it from waiting otherwise
    refine .of_step (.client 0) (by decide) ?_
    have heq : step s (.client 0) =
        { s with
          requests := s.requests ++ [toString 0]
          waiting := false
          output := s.output ++ [.client (toString 0)]
          client := .sleep } := by
      simp [step, doClient, hblock]
    rw [heq]
    exact returns_of_quiet hmain hstop (.inr (.inl rfl)) hserver rfl fun _ => List.concat_ne_nil _ _
  · have hquiet : s.client = .check ∨ s.client = .sleep ∨ s.client = .done := by
      cases hc : s.client with
      | fresh => exact absurd hc hclient
      | check => exact .inl rfl
      | block => exact absurd hc hblock
      | sleep => exact .inr (.inl rfl)
      | done => exact .inr (.inr rfl)
    have hawake : ¬ (s.waiting = true ∨ s.server = .block ∧ s.requests = []) :=
      fun h => hdoomed ⟨hmain, hquiet, h⟩
    rw [not_or, not_and] at hawake
    exact returns_of_quiet hmain hstop hquiet hserver (Bool.not_eq_true _ ▸ hawake.1) hawake.2

/-- A server in its block is let through before the last notification. -/
theorem returns_of_notify (hs : Staged s) (hmain : s.main = .notify) : Returns s := by
  have hnotified : ∀ s' : Process, Staged s' → s'.main = .notify → s'.server ≠ .block → Returns s' := by
    intro s' hs' hm hserver
    refine .of_step .main (by decide) (returns_of_not_doomed (step_staged s' .main hs') ?_ ?_)
    · left
      simp [step, startUp, hm]
    · rintro ⟨-, -, hw | ⟨hblock, -⟩⟩
      · simp [step, startUp, hm] at hw
      · simp only [step, startUp, hm] at hblock
        exact hserver hblock
  by_cases hblock : s.server = .block
  · refine .of_step .server (by decide) (hnotified _ (step_staged s .server hs) ?_ ?_)
    · exact (doServer_frame s).2.2.1.trans hmain
    · show (doServer s).server ≠ .block
      unfold doServer
      rw [hblock]
      dsimp only
      split <;> simp
  · exact hnotified s hs hmain hblock

theorem returns_before_notify (hs : Staged s) (hmain : s.main.stage ≤ 6) : Returns s := by
  -- up to the notification `startUp` need not wait for anybody
  induction hn : 6 - s.main.stage generalizing s with
  | zero =>
    apply returns_of_notify hs
    cases hm : s.main <;> rw [hm] at hn hmain <;> first | rfl | (simp only [Main.stage] at hn hmain; omega)
  | succ n ih =>
    have hstage : (startUp s).main.stage = s.main.stage + 1 := by
      unfold startUp
      split <;> next hm => rw [hm] at hn ⊢; first | rfl | (simp only [Main.stage] at hn; omega)
    refine .of_step .main (by decide) (ih (step_staged s .main hs) ?_ ?_)
    · show (startUp s).main.stage ≤ 6
      omega
    · show 6 - (startUp s).main.stage = n
      omega

end

/-- From whatever point of a run, `startUp` can still return if and only if the server has not been
left to wait: the last notification is over, the client is past its last offer, and the server
waits or has passed its check of `shouldStop` and finds the queue empty. -/
theorem startUp_returns_iff (events : List Event) :
    let s := run step init events
    (∃ more, (∀ e ∈ more, e ≠ .spuriousWakeup) ∧ (run step s more).main = .done) ↔ ¬ Doomed s := by
  intro s
  obtain ⟨hqueued, hstaged⟩ := run_staged events
  constructor
  · rintro ⟨more, hmore, hdone⟩ hdoomed
    obtain ⟨⟨hm | hm, -⟩, -⟩ := run_invariant_of_mem (I := fun s => Doomed s ∧ Queued s ∧ Staged s)
      (fun s e he h => ⟨step_doomed s e (hmore e he) h.1 h.2.1 h.2.2, step_queued s e h.2.1 h.2.2,
        step_staged s e h.2.2⟩) s ⟨hdoomed, hqueued, hstaged⟩
    · rw [hm] at hdone
      cases hdone
    · rw [hm] at hdone
      cases hdone
  · intro hdoomed
    by_cases hearly : s.main.stage ≤ 6
    · exact returns_before_notify hstaged hearly
    · cases hm : s.main with
      | joinClient => exact returns_of_not_doomed hstaged (.inl hm) hdoomed
      | joinServer => exact returns_of_not_doomed hstaged (.inr hm) hdoomed
      | allDone => exact ⟨[.main], by decide, by simp [run, step, startUp, hm]⟩
      | done => exact ⟨[], by decide, hm⟩
      | _ => exact absurd (by rw [hm]; decide) hearly

/-- The server passes its check just before the flag is set. -/
example : Doomed (run step init
    [.main, .main, .main, .main, .main, .server, .main, .main, .server, .client 0, .main]) := by decide

end GuardedSuspension
