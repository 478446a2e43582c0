import SpringStudy.OneToOnePages

/-!
# Calls between pages

From the click on `call` to the answer a call is in one place: a callback of the
page, a message, the page of the callee, the server. Each step passes it on or
loses it. So a page gets an answer only while it waits for one, and a call that
is declined, of which the handler tells the caller in a message that pages do
not know, keeps its page waiting.
-/
namespace OneToOneProtocol

open Tables Outcomes Runs Mailboxes OneToOneReplies OneToOnePages
open OneToOne hiding Event step handle
open OneToOneCalls

/-! ## What a step does to the call of a page -/

/-- A message that ends the call of the page, whatever it is waiting for. -/
def Resets : Message → Prop
  | .stopCommunication | .registerResponse _ | .rejected .registerResponse _ => True
  | _ => False

instance decidableResets : (message : Message) → Decidable (Resets message)
  | .stopCommunication | .registerResponse _ | .rejected .registerResponse _ => .isTrue trivial
  | .incomingCall _ | .callResponse _ | .startCommunication | .incomingCallResponse _ _ | .rejected .callResponse _ =>
    .isFalse id

/-- The page that the event takes back to having no call. -/
def setsBack (n : Net) : Event → Option String
  | .onError x => some x
  | .onmessage x _ => (receive x n.toPage).bind fun q => if Resets q.1 then some x else none
  | _ => none

section
variable (nameOf : String → String)

/-- A step seen from the page of `x`: it goes on as before, it starts a call, it gets an answer that
was under way, or it has no call any more. -/
inductive Moves (n n' : Net) (back : Prop) (x : String) : Prop where
  | keeps (hstate : (n'.pages x).callState = (n.pages x).callState)
      (hpeer : (n'.pages x).webRtcPeer = (n.pages x).webRtcPeer)
      (howed : n'.outstanding nameOf x ≤ n.outstanding nameOf x)
  | starts (hbefore : (n.pages x).callState = .noCall) (hafter : (n'.pages x).callState = .processingCall)
      (hpeer : (n'.pages x).webRtcPeer = true) (howed : n'.outstanding nameOf x ≤ n.outstanding nameOf x + 1)
  | ends (howed : n'.outstanding nameOf x < n.outstanding nameOf x)
      (hafter : (n'.pages x).callState = .noCall ∨
        (n'.pages x).callState = .inCall ∧ (n'.pages x).webRtcPeer = (n.pages x).webRtcPeer)
  | rests (hafter : (n'.pages x).callState = .noCall) (howed : n'.outstanding nameOf x ≤ n.outstanding nameOf x)
      (hback : back ∨ (n.pages x).callState ≠ .processingCall)

/-- Under way is at most what the page waits for, and it has a peer while it is calling. -/
structure Waits (n : Net) (x : String) : Prop where
  owed : n.outstanding nameOf x ≤ if (n.pages x).callState = .processingCall then 1 else 0
  peer : (n.pages x).callState ≠ .noCall → (n.pages x).webRtcPeer = true

end

section
variable {nameOf : String → String} {n n' n₀ : Net} {x y : String} {back : Prop}

theorem Moves.waits (h : Moves nameOf n n' back x) (hw : Waits nameOf n x)
    (hback : back → n.outstanding nameOf x = 0) : Waits nameOf n' x := by
  have howed := hw.owed
  cases h with
  | keeps hstate hpeer hle =>
    refine ⟨?_, ?_⟩
    · rw [hstate]
      omega
    · rw [hstate, hpeer]
      exact hw.peer
  | starts hbefore hafter hpeer hle =>
    rw [if_neg (by simp [hbefore])] at howed
    refine ⟨?_, fun _ => hpeer⟩
    rw [if_pos hafter]
    omega
  | ends hlt hafter =>
    -- the page was waiting, since something was under way for it
    have hprocessing : (n.pages x).callState = .processingCall := by
      by_contra hnot
      rw [if_neg hnot] at howed
      omega
    rw [if_pos hprocessing] at howed
    refine ⟨by omega, fun hne => ?_⟩
    obtain hno | ⟨-, hpeer⟩ := hafter
    · exact absurd hno hne
    · rw [hpeer]
      exact hw.peer (by simp [hprocessing])
  | rests hafter hle hrest =>
    have hzero : n.outstanding nameOf x = 0 := by
      rcases hrest with hb | hne
      · exact hback hb
      · rw [if_neg hne] at howed
        omega
    exact ⟨by omega, fun hne => absurd hafter hne⟩

/-- Nothing is under way for a page that waits. -/
def Hung (nameOf : String → String) (n : Net) (x : String) : Prop :=
  (n.pages x).callState = .processingCall ∧ n.outstanding nameOf x = 0

theorem Moves.hung (h : Moves nameOf n n' back x) (hh : Hung nameOf n x) (hback : ¬ back) : Hung nameOf n' x := by
  obtain ⟨hstate, hzero⟩ := hh
  cases h with
  | keeps hkeeps hpeer hle => exact ⟨hkeeps.trans hstate, by omega⟩
  | starts hbefore hafter hpeer hle => rw [hstate] at hbefore; cases hbefore
  | ends hlt hafter => omega
  | rests hafter hle hrest =>
    rcases hrest with hb | hne
    · exact absurd hb hback
    · exact absurd hstate hne

/-! ## Steps of a page -/

theorem owedByCallback_congr {pages pages' : String → Page}
    (hfrom : ∀ z, (pages' z).fromName = (pages z).fromName) (p : String × Callback) :
    owedByCallback nameOf pages' x p = owedByCallback nameOf pages x p := by
  unfold owedByCallback
  rw [hfrom]

theorem update_fromName {pages : String → Page} {q : Page} (hfrom : q.fromName = (pages y).fromName) (z : String) :
    (Function.update pages y q z).fromName = (pages z).fromName := by
  by_cases hz : z = y
  · rw [hz, Function.update_self, hfrom]
  · rw [Function.update_of_ne hz]

theorem act_outstanding (r : Reaction) (hfrom : r.page.fromName = (n.pages y).fromName) :
    (n.act y r).outstanding nameOf x = n.outstanding nameOf x + r.owed nameOf n.pages y x := by
  have hcallbacks : weigh (owedByCallback nameOf (Function.update n.pages y r.page) x)
      (n.callbacks ++ r.callbacks.map (y, ·)) =
      weigh (owedByCallback nameOf n.pages x) (n.callbacks ++ r.callbacks.map (y, ·)) :=
    weigh_congr fun p _ => owedByCallback_congr (update_fromName hfrom) p
  simp only [Net.outstanding, Net.act, Reaction.owed, hcallbacks, weigh_append]
  omega

theorem act_page (r : Reaction) : (n.act y r).pages y = r.page := by
  simp only [Net.act, Function.update_self]

theorem act_other (hx : x ≠ y) (r : Reaction) : (n.act y r).pages x = n.pages x := by
  simp only [Net.act]
  exact Function.update_of_ne hx r.page n.pages

/-- The pages of the others do not change, so only what is under way for them matters. -/
theorem act_moves {r : Reaction} (back : String → Prop) (hpages : n₀.pages = n.pages)
    (hother : ∀ x, x ≠ y → (n₀.act y r).outstanding nameOf x ≤ n.outstanding nameOf x)
    (hown : Moves nameOf n (n₀.act y r) (back y) y) (x : String) :
    Moves nameOf n (n₀.act y r) (back x) x := by
  by_cases hx : x = y
  · rw [hx]
    exact hown
  · refine .keeps ?_ ?_ (hother x hx)
    · rw [act_other hx, hpages]
    · rw [act_other hx, hpages]

section
variable {r : Reaction} (hpages : n₀.pages = n.pages) (hfrom : r.page.fromName = (n.pages y).fromName)
  (howed : ∀ x, n₀.outstanding nameOf x + r.owed nameOf n.pages y x ≤ n.outstanding nameOf x)

include hpages hfrom howed

theorem act_le (x : String) : (n₀.act y r).outstanding nameOf x ≤ n.outstanding nameOf x := by
  rw [act_outstanding r (hfrom.trans (by rw [hpages])), hpages]
  exact howed x

/-- The page itself stays as it is. -/
theorem act_keeps (hstate : r.page.callState = (n.pages y).callState)
    (hpeer : r.page.webRtcPeer = (n.pages y).webRtcPeer) (back : String → Prop) (x : String) :
    Moves nameOf n (n₀.act y r) (back x) x := by
  have hle := act_le hpages hfrom howed
  refine act_moves back hpages (fun x _ => hle x) (.keeps ?_ ?_ (hle y)) x
  · rw [act_page, hstate]
  · rw [act_page, hpeer]

theorem act_rests (hstate : r.page.callState = .noCall) (back : String → Prop)
    (hback : back y ∨ (n.pages y).callState ≠ .processingCall) (x : String) :
    Moves nameOf n (n₀.act y r) (back x) x := by
  have hle := act_le hpages hfrom howed
  refine act_moves back hpages (fun x _ => hle x) (.rests ?_ (hle y) hback) x
  rw [act_page, hstate]

/-- The page has got an answer. -/
theorem act_ends (hlt : n₀.outstanding nameOf y + r.owed nameOf n.pages y y < n.outstanding nameOf y)
    (hafter : r.page.callState = .noCall ∨
      r.page.callState = .inCall ∧ r.page.webRtcPeer = (n.pages y).webRtcPeer)
    (back : String → Prop) (x : String) : Moves nameOf n (n₀.act y r) (back x) x := by
  have hle := act_le hpages hfrom howed
  refine act_moves back hpages (fun x _ => hle x) (.ends ?_ ?_) x
  · rw [act_outstanding r (hfrom.trans (by rw [hpages])), hpages]
    exact hlt
  · rw [act_page]
    exact hafter

end

theorem owed_sendMessage_le (nameOf : String → String) (p : Page) (message : ClientMessage) (y x : String) :
    weigh (owedByRequest nameOf x) ((p.sendMessage message).map (y, ·)) ≤ owedByRequest nameOf x (y, message) := by
  unfold Page.sendMessage
  split
  · exact Nat.le_refl _
  · exact Nat.zero_le _

theorem call_moves (y peer : String) (back : String → Prop) (x : String) :
    Moves nameOf n (n.act y ((n.pages y).call peer)) (back x) x := by
  unfold Page.call
  split
  · exact act_keeps rfl rfl (fun x => Nat.le_refl _) rfl rfl back x
  · next hcall =>
    have hno : (n.pages y).callState = .noCall := by
      by_contra hne
      exact hcall (.inl hne)
    have howed : ∀ x, (n.act y ⟨{ n.pages y with callState := .processingCall, webRtcPeer := true }, [],
        [.created .call]⟩).outstanding nameOf x = n.outstanding nameOf x + if y = x then 1 else 0 := by
      intro x
      rw [act_outstanding _ rfl]
      rfl
    refine act_moves back rfl (fun x hx => ?_) (.starts hno ?_ ?_ ?_) x
    · rw [howed, if_neg (Ne.symm hx)]
      exact Nat.le_refl _
    · rw [act_page]
    · rw [act_page]
    · rw [howed, if_pos rfl]

theorem stop_owed (nameOf : String → String) (p : Page) (told : Bool) (pages : String → Page) (y x : String) :
    (p.stop told).owed nameOf pages y x = 0 := by
  simp only [Page.stop, Reaction.owed, List.map_nil, weigh_nil, Nat.zero_add]
  refine weigh_eq_zero fun q hq => ?_
  obtain ⟨message, hmessage, rfl⟩ := List.mem_map.mp hq
  have hstop : message = .stop := by
    unfold Page.sendMessage at hmessage
    split at hmessage
    · split at hmessage
      · exact List.mem_singleton.mp hmessage
      · cases hmessage
    · cases hmessage
  rw [hstop]
  rfl

theorem terminate_moves (y : String) (back : String → Prop) (x : String) :
    Moves nameOf n (n.act y (n.pages y).terminate) (back x) x := by
  unfold Page.terminate
  split
  · next hin =>
    refine act_rests rfl rfl (fun x => ?_) rfl back (.inr ?_) x
    · rw [stop_owed]
      exact Nat.le_refl _
    · simp [hin]
  · exact act_keeps rfl rfl (fun x => Nat.le_refl _) rfl rfl back x

/-- A message that asks for nothing. -/
theorem owed_silent {p : Page} {message : ClientMessage} {y x : String}
    (hmessage : owedByRequest nameOf x (y, message) = 0) (q : Page) (pages : String → Page) :
    Reaction.owed nameOf pages ⟨q, p.sendMessage message, []⟩ y x = 0 := by
  have hsend := owed_sendMessage_le nameOf p message y x
  rw [hmessage] at hsend
  simp only [Reaction.owed, List.map_nil, weigh_nil, Nat.zero_add]
  exact Nat.le_zero.mp hsend

theorem register_moves (y name : String) (back : String → Prop) (x : String) :
    Moves nameOf n (n.act y ((n.pages y).register name)) (back x) x := by
  unfold Page.register
  split
  · exact act_keeps rfl rfl (fun x => Nat.le_refl _) rfl rfl back x
  · refine act_keeps rfl rfl (fun x => ?_) rfl rfl back x
    rw [owed_silent rfl]
    exact Nat.le_refl _

theorem onIceCandidate_moves (y : String) (candidate : IceCandidate) (back : String → Prop) (x : String) :
    Moves nameOf n (n.act y ⟨n.pages y, (n.pages y).sendMessage (.onIceCandidate candidate), []⟩) (back x) x := by
  refine act_keeps rfl rfl (fun x => ?_) rfl rfl back x
  rw [owed_silent rfl]
  exact Nat.le_refl _

theorem onError_moves (y x : String) :
    Moves nameOf n (n.act y ⟨(n.pages y).onError, [], []⟩) (some y = some x) x :=
  act_rests rfl rfl (fun _ => Nat.le_refl _) rfl (fun x => some y = some x) (.inl rfl) x

/-- A callback that comes back is no longer under way. -/
theorem comeBack_moves {c : Callback} {r : Reaction} (hpage : r.page = n.pages y)
    (howed : ∀ x, r.owed nameOf n.pages y x ≤ owedByCallback nameOf n.pages x (y, c)) (back : String → Prop)
    (x : String) : Moves nameOf n (n.comeBack y c r) (back x) x := by
  unfold Net.comeBack
  split
  · next hc =>
    have hpages : ({ n with callbacks := n.callbacks.erase (y, c) } : Net).pages = n.pages := rfl
    refine act_keeps hpages (by rw [hpage]) (fun x => ?_) (by rw [hpage]) (by rw [hpage]) back x
    have herase := weigh_erase (owedByCallback nameOf n.pages x) hc
    have hle := howed x
    simp only [Net.outstanding]
    omega
  · exact .keeps rfl rfl (Nat.le_refl _)

theorem created_moves (y : String) (purpose : Purpose) (err : Bool) (back : String → Prop) (x : String) :
    Moves nameOf n (n.comeBack y (.created purpose) ((n.pages y).created purpose err)) (back x) x := by
  unfold Page.created
  split
  · exact comeBack_moves rfl (fun x => Nat.zero_le _) back x
  · exact comeBack_moves rfl (fun _ => Nat.le_refl _) back x

theorem offered_moves (y : String) (purpose : Purpose) (offerSdp : Option String) (name peer : String)
    (back : String → Prop) (x : String) :
    Moves nameOf n (n.comeBack y (.offered purpose) ((n.pages y).offered purpose offerSdp name peer)) (back x) x := by
  unfold Page.offered
  split
  · exact comeBack_moves rfl (fun x => Nat.zero_le _) back x
  · next sdp =>
    cases purpose with
    | call =>
      refine comeBack_moves rfl (fun x => ?_) back x
      simp only [Reaction.owed, List.map_nil, weigh_nil, Nat.zero_add]
      exact owed_sendMessage_le nameOf (n.pages y) (.call name peer sdp) y x
    | incomingCall =>
      refine comeBack_moves rfl (fun x => ?_) back x
      have hsend := owed_sendMessage_le nameOf (n.pages y)
        (.incomingCallResponse (n.pages y).fromName "accept" (some sdp)) y x
      simp only [owedByRequest, true_and] at hsend
      simp only [Reaction.owed, List.map_nil, weigh_nil, Nat.zero_add]
      exact hsend

/-! ## Messages that arrive -/

/-- The page answers a call: nothing else was under way for it, so its earlier `from` counts for nobody. -/
theorem confirm_outstanding (caller : String) (hzero : n.outstanding nameOf y = 0) (x : String) :
    (n.act y ⟨{ n.pages y with callState := .processingCall, fromName := some caller, webRtcPeer := true }, [],
        [.created .incomingCall]⟩).outstanding nameOf x =
      n.outstanding nameOf x + ((if y = x then 1 else 0) + if caller = nameOf x then 1 else 0) := by
  have hcallbacks : ∀ q : Page, ∀ p ∈ n.callbacks,
      owedByCallback nameOf (Function.update n.pages y q) x p = owedByCallback nameOf n.pages x p := by
    intro q p hp
    by_cases hy : p.1 = y
    · cases hpurpose : p.2.purpose with
      | call => simp only [owedByCallback, hpurpose]
      | incomingCall =>
        have hone : 1 ≤ owedByCallback nameOf n.pages y p := by
          simp only [owedByCallback, hpurpose, hy, if_true]
          omega
        have hle := le_weigh (owedByCallback nameOf n.pages y) hp
        unfold Net.outstanding at hzero
        omega
    · unfold owedByCallback
      rw [Function.update_of_ne hy]
  simp only [Net.outstanding, Net.act, List.map_cons, List.map_nil, List.append_nil, weigh_append, weigh_cons,
    weigh_nil, weigh_congr (hcallbacks _)]
  simp only [owedByCallback, Callback.purpose, Function.update_self, Option.some.injEq]
  omega

theorem incomingCall_moves (hw : Waits nameOf n y) {caller : String} (confirmed : Bool)
    (hpages : n₀.pages = n.pages)
    (hleft : ∀ x, n.outstanding nameOf x = n₀.outstanding nameOf x + if caller = nameOf x then 1 else 0)
    (back : String → Prop) (x : String) :
    Moves nameOf n (n₀.act y ((n.pages y).incomingCall caller confirmed)) (back x) x := by
  -- a rejection is for the caller, as the call was
  have hreject : ∀ x, weigh (owedByRequest nameOf x)
      (((n.pages y).sendMessage (.incomingCallResponse (some caller) "reject" none)).map (y, ·)) ≤
        if caller = nameOf x then 1 else 0 := by
    intro x
    have hsend := owed_sendMessage_le nameOf (n.pages y) (.incomingCallResponse (some caller) "reject" none) y x
    simpa [owedByRequest] using hsend
  unfold Page.incomingCall
  dsimp only
  split
  · refine act_keeps hpages rfl (fun x => ?_) rfl rfl back x
    have hle := hreject x
    simp only [Reaction.owed, List.map_nil, weigh_nil, Nat.zero_add]
    rw [hleft x]
    omega
  · next hbusy =>
    have hno : (n.pages y).callState = .noCall := not_not.mp hbusy
    split
    · have hzero : n₀.outstanding nameOf y = 0 := by
        have howed := hw.owed
        rw [if_neg (by simp [hno]), hleft y] at howed
        omega
      have hafter := confirm_outstanding caller hzero
      rw [hpages] at hafter
      refine act_moves back hpages (fun x hx => ?_) (.starts hno ?_ ?_ ?_) x
      · rw [hafter x, hleft x, if_neg (Ne.symm hx)]
        omega
      · rw [act_page]
      · rw [act_page]
      · rw [hafter y, hleft y, if_pos rfl]
        omega
    · refine act_rests hpages rfl (fun x => ?_) rfl back (.inr (by simp [hno])) x
      have hle := hreject x
      have hstop := stop_owed nameOf (n.pages y) false n.pages y x
      simp only [Reaction.owed, Page.stop, List.map_nil, weigh_nil, Nat.zero_add] at hstop
      simp only [Reaction.owed, Page.stop, List.map_nil, List.map_append, weigh_nil, weigh_append, hstop,
        Nat.zero_add, Nat.add_zero]
      rw [hleft x]
      omega

theorem receive_outstanding {message : Message} {rest : List (String × Message)}
    (hr : receive y n.toPage = some (message, rest)) (x : String) :
    n.outstanding nameOf x =
      ({ n with toPage := rest } : Net).outstanding nameOf x + owedByMessage nameOf x (y, message) := by
  have hweigh := weigh_receive (owedByMessage nameOf x) hr
  simp only [Net.outstanding]
  omega

theorem onmessage_moves (hw : Waits nameOf n y) {message : Message} {rest : List (String × Message)}
    (hr : receive y n.toPage = some (message, rest)) (confirmed : Bool) (back : String → Prop)
    (hback : Resets message → back y) (x : String) :
    Moves nameOf n ({ n with toPage := rest }.act y ((n.pages y).onmessage confirmed message)) (back x) x := by
  have hpages : ({ n with toPage := rest } : Net).pages = n.pages := rfl
  have hleft : ∀ x, n.outstanding nameOf x =
      ({ n with toPage := rest } : Net).outstanding nameOf x + owedByMessage nameOf x (y, message) :=
    receive_outstanding hr
  -- a page that sets nothing under way takes nothing from the others, and an answer is one less for it
  have hless : ∀ {r : Reaction}, (∀ x, r.owed nameOf n.pages y x = 0) → ∀ x,
      ({ n with toPage := rest } : Net).outstanding nameOf x + r.owed nameOf n.pages y x ≤
        n.outstanding nameOf x := by
    intro r hr x
    rw [hr x, hleft x]
    exact Nat.le_add_right _ _
  have hanswer : owedByMessage nameOf y (y, message) = 1 → ∀ {r : Reaction},
      (∀ x, r.owed nameOf n.pages y x = 0) →
      ({ n with toPage := rest } : Net).outstanding nameOf y + r.owed nameOf n.pages y y <
        n.outstanding nameOf y := by
    intro hone r hr
    rw [hr y, hleft y, hone]
    exact Nat.lt_succ_self _
  cases message with
  | registerResponse response =>
    refine act_rests hpages ?_ (hless fun x => rfl) ?_ back (.inl (hback trivial)) x
    · by_cases ha : response = "accepted" <;> simp [Page.onmessage, Page.registerResponse, Page.setRegisterState, ha]
    · by_cases ha : response = "accepted" <;> simp [Page.onmessage, Page.registerResponse, Page.setRegisterState, ha]
  | incomingCall caller => exact incomingCall_moves hw confirmed hpages hleft back x
  | callResponse response =>
    simp only [Page.onmessage, Page.callResponse]
    split
    · exact act_ends hpages rfl (hless fun x => rfl) (hanswer (if_pos rfl) fun x => rfl) (.inr ⟨rfl, rfl⟩) back x
    · exact act_ends hpages rfl (hless (stop_owed nameOf _ _ _ y))
        (hanswer (if_pos rfl) (stop_owed nameOf _ _ _ y)) (.inl rfl) back x
  | startCommunication =>
    exact act_ends hpages rfl (hless fun x => rfl) (hanswer (if_pos rfl) fun x => rfl) (.inr ⟨rfl, rfl⟩) back x
  | stopCommunication =>
    exact act_rests hpages rfl (hless (stop_owed nameOf _ _ _ y)) rfl back (.inl (hback trivial)) x
  | incomingCallResponse response caller => exact act_keeps hpages rfl (hless fun x => rfl) rfl rfl back x
  | rejected id reason =>
    cases id with
    | registerResponse => exact act_rests hpages rfl (hless fun x => rfl) rfl back (.inl (hback trivial)) x
    | callResponse =>
      exact act_ends hpages rfl (hless (stop_owed nameOf _ _ _ y))
        (hanswer (if_pos rfl) (stop_owed nameOf _ _ _ y)) (.inl rfl) back x

/-- The pages do not notice that the server works. -/
theorem serve_outstanding (nameOf : String → String) (n : Net) (h' : Handler) (x : String) :
    (n.serve h').outstanding nameOf x = n.outstanding nameOf x +
      weigh (owedByMessage nameOf x) (Net.posted h' (h'.sent.drop n.server.sent.length)) := by
  simp only [Net.outstanding, Net.serve, weigh_append]
  omega

theorem handle_moves (hinj : Function.Injective nameOf) (hj : Seated n.server) (hn : Named nameOf n.server)
    {message : ClientMessage} {rest : List (String × ClientMessage)} (hsigned : Signed nameOf (y, message))
    {fate : Fate} (hthrows : fate.accept.throws ≠ some .gatherCandidates)
    (hr : receive y n.toServer = some (message, rest)) (back : Prop) (x : String) :
    Moves nameOf n ({ n with toServer := rest }.serve (OneToOne.step n.server (message.event y fate))) back x := by
  have hweigh := weigh_receive (owedByRequest nameOf x) hr
  have hheard := handle_heard (x := x) hinj hj hn hsigned hthrows rfl
  refine .keeps rfl rfl ?_
  rw [serve_outstanding]
  simp only [Net.outstanding]
  omega

theorem closed_moves (y : String) (delivered : Bool) (back : Prop) (x : String) :
    Moves nameOf n ((n.serve (OneToOne.step n.server (.closed y delivered))).leave y) back x := by
  have hserve := serve_outstanding nameOf n (OneToOne.step n.server (.closed y delivered)) x
  rw [closed_heard delivered rfl, Nat.add_zero] at hserve
  generalize hm : n.serve (OneToOne.step n.server (.closed y delivered)) = m at hserve
  have hpages : m.pages = n.pages := by
    rw [← hm]
    rfl
  have hpage : ∀ x, ((m.leave y).pages x).callState = (m.pages x).callState ∧
      ((m.leave y).pages x).webRtcPeer = (m.pages x).webRtcPeer ∧
      ((m.leave y).pages x).fromName = (m.pages x).fromName := by
    intro x
    simp only [Net.leave]
    by_cases hx : x = y
    · simp [hx]
    · simp [hx]
  rw [hpages] at hpage
  refine .keeps (hpage x).1 (hpage x).2.1 (hserve ▸ ?_)
  have hcallbacks : weigh (owedByCallback nameOf (m.leave y).pages x) (m.callbacks.filter fun p => p.1 ≠ y) =
      weigh (owedByCallback nameOf m.pages x) (m.callbacks.filter fun p => p.1 ≠ y) := by
    rw [hpages]
    exact weigh_congr fun p _ => owedByCallback_congr (fun z => (hpage z).2.2) p
  have h₁ := weigh_filter_le (owedByCallback nameOf m.pages x) (fun p => p.1 ≠ y) m.callbacks
  have h₂ := weigh_filter_le (owedByRequest nameOf x) (fun p => p.1 ≠ y) m.toServer
  have h₃ := weigh_filter_le (owedByMessage nameOf x) (fun p => p.1 ≠ y) m.toPage
  show weigh (owedByCallback nameOf (m.leave y).pages x) (m.callbacks.filter fun p => p.1 ≠ y) +
    weigh (owedByRequest nameOf x) (m.toServer.filter fun p => p.1 ≠ y) +
    weigh (owedByMessage nameOf x) (m.toPage.filter fun p => p.1 ≠ y) ≤ _
  rw [hcallbacks]
  simp only [Net.outstanding]
  omega

end

/-! ## Undisturbed runs -/

section
variable (nameOf : String → String)

/-- The user has typed the own name, and Kurento can be asked for candidates once both sides have
their answers. -/
def Proper : Event → Prop
  | .register x name => name = nameOf x
  | .offered x _ _ name _ => name = nameOf x
  | .handle _ fate => fate.accept.throws ≠ some .gatherCandidates
  | _ => True

instance decidableProper : (e : Event) → Decidable (Proper nameOf e)
  | .register x name => inferInstanceAs (Decidable (name = nameOf x))
  | .offered x _ _ name _ => inferInstanceAs (Decidable (name = nameOf x))
  | .handle _ fate => inferInstanceAs (Decidable (fate.accept.throws ≠ some .gatherCandidates))
  | .onopen _ | .call _ _ | .terminate _ | .created _ _ _ | .onIceCandidate _ _ | .onError _ | .onmessage _ _
  | .closed _ _ => .isTrue trivial

/-- No page is taken back to having no call while something is under way for it. -/
def Undisturbed (n : Net) (e : Event) : Prop :=
  Proper nameOf e ∧ ∀ x ∈ setsBack n e, n.outstanding nameOf x = 0

instance decidableUndisturbed (n : Net) (e : Event) : Decidable (Undisturbed nameOf n e) :=
  inferInstanceAs (Decidable (Proper nameOf e ∧ ∀ x ∈ setsBack n e, n.outstanding nameOf x = 0))

/-- Sessions and names find their users, and what is sent to the server bears the sender's name. -/
structure Registered (n : Net) : Prop where
  seated : Seated n.server
  named : Named nameOf n.server
  signed : ∀ p ∈ n.toServer, Signed nameOf p

structure Sound (n : Net) : Prop extends Registered nameOf n where
  waits : ∀ x, Waits nameOf n x

end

section
variable {nameOf : String → String} {n : Net}

theorem step_moves (hinj : Function.Injective nameOf) (hs : Sound nameOf n) {e : Event}
    (hproper : Proper nameOf e) (x : String) : Moves nameOf n (step n e) (setsBack n e = some x) x := by
  unfold step
  split
  · exact .keeps rfl rfl (Nat.le_refl _)
  · cases e with
    | onopen y =>
      exact act_keeps rfl rfl (fun _ => Nat.le_refl _) rfl rfl (fun x => setsBack n (.onopen y) = some x) x
    | register y name => exact register_moves y name (fun x => setsBack n (.register y name) = some x) x
    | call y peer => exact call_moves y peer (fun x => setsBack n (.call y peer) = some x) x
    | terminate y => exact terminate_moves y (fun x => setsBack n (.terminate y) = some x) x
    | created y purpose err =>
      exact created_moves y purpose err (fun x => setsBack n (.created y purpose err) = some x) x
    | offered y purpose offerSdp name peer =>
      exact offered_moves y purpose offerSdp name peer
        (fun x => setsBack n (.offered y purpose offerSdp name peer) = some x) x
    | onIceCandidate y candidate =>
      exact onIceCandidate_moves y candidate (fun x => setsBack n (.onIceCandidate y candidate) = some x) x
    | onError y => exact onError_moves y x
    | onmessage y confirmed =>
      simp only [Net.handle]
      split
      · exact .keeps rfl rfl (Nat.le_refl _)
      · next message rest hr =>
        refine onmessage_moves (hs.waits y) hr confirmed (fun x => setsBack n (.onmessage y confirmed) = some x) ?_ x
        intro hresets
        simp only [setsBack, hr, Option.bind_some, if_pos hresets]
    | handle y fate =>
      simp only [Net.handle]
      split
      · exact .keeps rfl rfl (Nat.le_refl _)
      · next message rest hr =>
        exact handle_moves hinj hs.seated hs.named (hs.signed _ (mem_of_receive hr)) hproper hr _ x
    | closed y delivered => exact closed_moves y delivered _ x

/-! ## The registry and the names -/

theorem Registered.act (h : Registered nameOf n) {y : String} {r : Reaction}
    (hr : ∀ message ∈ r.messages, Signed nameOf (y, message)) : Registered nameOf (n.act y r) := by
  refine ⟨h.seated, h.named, fun p hp => ?_⟩
  rcases List.mem_append.mp hp with hp | hp
  · exact h.signed p hp
  · obtain ⟨message, hmessage, rfl⟩ := List.mem_map.mp hp
    exact hr message hmessage

theorem signed_sendMessage {p : Page} {y : String} {message : ClientMessage} (hm : Signed nameOf (y, message)) :
    ∀ m ∈ p.sendMessage message, Signed nameOf (y, m) := by
  intro m hmem
  unfold Page.sendMessage at hmem
  split at hmem
  · rw [List.mem_singleton.mp hmem]
    exact hm
  · cases hmem

theorem signed_stop (p : Page) (told : Bool) (y : String) :
    ∀ m ∈ (p.stop told).messages, Signed nameOf (y, m) := by
  intro m hm
  simp only [Page.stop] at hm
  split at hm
  · exact signed_sendMessage (show Signed nameOf (y, .stop) from trivial) m hm
  · cases hm

theorem signed_onmessage (p : Page) (confirmed : Bool) (message : Message) (y : String) :
    ∀ m ∈ (p.onmessage confirmed message).messages, Signed nameOf (y, m) := by
  cases message with
  | registerResponse response => exact fun m hm => by cases hm
  | incomingCall caller =>
    have hreject : ∀ m ∈ p.sendMessage (.incomingCallResponse (some caller) "reject" none), Signed nameOf (y, m) :=
      signed_sendMessage trivial
    intro m hm
    simp only [Page.onmessage, Page.incomingCall] at hm
    split at hm
    · exact hreject m hm
    · split at hm
      · cases hm
      · rcases List.mem_append.mp hm with hm | hm
        · exact hreject m hm
        · exact signed_stop p false y m hm
  | callResponse response =>
    intro m hm
    simp only [Page.onmessage, Page.callResponse] at hm
    split at hm
    · cases hm
    · exact signed_stop p false y m hm
  | startCommunication => exact fun m hm => by cases hm
  | stopCommunication => exact signed_stop p true y
  | incomingCallResponse response caller => exact fun m hm => by cases hm
  | rejected id reason =>
    cases id with
    | registerResponse => exact fun m hm => by cases hm
    | callResponse => exact signed_stop p false y

theorem event_named {h : Handler} (hn : Named nameOf h) {y : String} {message : ClientMessage}
    (hsigned : Signed nameOf (y, message)) (fate : Fate) : Named nameOf (OneToOne.step h (message.event y fate)) := by
  cases message with
  | register name =>
    obtain rfl : name = nameOf y := hsigned
    exact named_unmoved.handleErrorResponse (register_named hn y fate.delivered) _ _ _
  | call fromName callee sdpOffer => exact named_unmoved.handleErrorResponse (named_unmoved.call hn _ _ _ _ _) _ _ _
  | incomingCallResponse fromName callResponse sdpOffer => exact named_unmoved.incomingCallResponse hn _ _ _ _ _
  | onIceCandidate candidate => exact named_unmoved.onIceCandidate hn y candidate
  | stop => exact named_unmoved.stop hn y _

theorem Registered.step (h : Registered nameOf n) {e : Event} (hproper : Proper nameOf e) :
    Registered nameOf (step n e) := by
  unfold OneToOnePages.step
  split
  · exact h
  · cases e with
    | onopen y => exact h.act fun m hm => by cases hm
    | register y name =>
      refine h.act ?_
      unfold Page.register
      split
      · exact fun m hm => by cases hm
      · exact signed_sendMessage hproper
    | call y peer =>
      refine h.act ?_
      unfold Page.call
      split
      · exact fun m hm => by cases hm
      · exact fun m hm => by cases hm
    | terminate y =>
      refine h.act ?_
      unfold Page.terminate
      split
      · exact signed_stop _ _ _
      · exact fun m hm => by cases hm
    | created y purpose err =>
      simp only [Net.handle, Net.comeBack]
      split
      · have herased : Registered nameOf { n with callbacks := n.callbacks.erase (y, .created purpose) } :=
          ⟨h.seated, h.named, h.signed⟩
        refine herased.act ?_
        unfold Page.created
        split
        · exact fun m hm => by cases hm
        · exact fun m hm => by cases hm
      · exact h
    | offered y purpose offerSdp name peer =>
      simp only [Net.handle, Net.comeBack]
      split
      · have herased : Registered nameOf { n with callbacks := n.callbacks.erase (y, .offered purpose) } :=
          ⟨h.seated, h.named, h.signed⟩
        refine herased.act ?_
        unfold Page.offered
        split
        · exact fun m hm => by cases hm
        · cases purpose with
          | call => exact signed_sendMessage hproper
          | incomingCall => exact signed_sendMessage trivial
      · exact h
    | onIceCandidate y candidate => exact h.act (signed_sendMessage trivial)
    | onError y => exact h.act fun m hm => by cases hm
    | onmessage y confirmed =>
      simp only [Net.handle]
      split
      · exact h
      · next message rest hr =>
        have hreceived : Registered nameOf { n with toPage := rest } := ⟨h.seated, h.named, h.signed⟩
        exact hreceived.act (signed_onmessage _ _ _ _)
    | handle y fate =>
      simp only [Net.handle]
      split
      · exact h
      · next message rest hr =>
        refine ⟨step_seated _ h.seated, event_named h.named (h.signed _ (mem_of_receive hr)) fate, ?_⟩
        exact fun p hp => h.signed p (mem_of_mem_rest hr hp)
    | closed y delivered =>
      refine ⟨step_seated _ h.seated, closed_named h.named y delivered, ?_⟩
      exact fun p hp => h.signed p (List.mem_filter.mp hp).1

theorem Sound.step (hinj : Function.Injective nameOf) (hs : Sound nameOf n) {e : Event}
    (hu : Undisturbed nameOf n e) : Sound nameOf (step n e) where
  toRegistered := hs.toRegistered.step hu.1
  waits x := (step_moves hinj hs hu.1 x).waits (hs.waits x) (hu.2 x)

theorem init_sound : Sound nameOf .init where
  seated _ _ hl := by cases hl
  named _ _ hl := by cases hl
  signed _ hp := by cases hp
  waits _ := ⟨Nat.le_refl _, fun hne => absurd rfl hne⟩

theorem run_sound (hinj : Function.Injective nameOf) {events : List Event}
    (h : Along step (Undisturbed nameOf) Net.init events) : Sound nameOf (run step Net.init events) :=
  (throughout_of_along (fun _ _ hs hu => hs.step hinj hu) _ _ init_sound h).run

/-- A decline takes the call of `x` off the wires, and nothing takes its place. -/
theorem decline_hangs (hs : Sound nameOf n) {x y response : String} {sdpOffer : Option String}
    {rest : List (String × ClientMessage)} (hopen : (n.pages y).readyState ≠ .closed)
    (hr : receive y n.toServer = some (.incomingCallResponse (some (nameOf x)) response sdpOffer, rest))
    (hresponse : response ≠ "accept") (fate : Fate) : Hung nameOf (OneToOnePages.step n (.handle y fate)) x := by
  have hweigh := weigh_receive (owedByRequest nameOf x) hr
  simp only [owedByRequest, hresponse, false_and, if_false, if_true, Nat.zero_add] at hweigh
  have howed := (hs.waits x).owed
  have hprocessing : (n.pages x).callState = .processingCall := by
    by_contra hnot
    rw [if_neg hnot] at howed
    unfold Net.outstanding at howed
    omega
  rw [if_pos hprocessing] at howed
  simp only [OneToOnePages.step, Event.session, if_neg hopen, Net.handle, hr]
  generalize he : OneToOne.step n.server
    (ClientMessage.event y fate (.incomingCallResponse (some (nameOf x)) response sdpOffer)) = h'
  refine ⟨hprocessing, ?_⟩
  rw [serve_outstanding, decline_heard (some (nameOf x)) sdpOffer hresponse fate.accept he]
  simp only [Net.outstanding] at howed ⊢
  omega

end

/-! ## Results -/

/-- What a page waits for when it has called, or has accepted a call. -/
def Answers : Message → Prop
  | .callResponse _ | .rejected .callResponse _ | .startCommunication => True
  | _ => False

instance decidableAnswers : (message : Message) → Decidable (Answers message)
  | .callResponse _ | .rejected .callResponse _ | .startCommunication => .isTrue trivial
  | .incomingCall _ | .registerResponse _ | .stopCommunication | .incomingCallResponse _ _
  | .rejected .registerResponse _ => .isFalse id

theorem owed_of_answers (nameOf : String → String) {x : String} {p : String × Message} (hx : p.1 = x)
    (hp : Answers p.2) : 1 ≤ owedByMessage nameOf x p := by
  obtain ⟨z, message⟩ := p
  obtain rfl : z = x := hx
  cases message with
  | callResponse response => exact Nat.le_of_eq (if_pos rfl).symm
  | startCommunication => exact Nat.le_of_eq (if_pos rfl).symm
  | rejected id reason =>
    cases id with
    | callResponse => exact Nat.le_of_eq (if_pos rfl).symm
    | registerResponse => exact hp.elim
  | registerResponse response => exact hp.elim
  | incomingCall caller => exact hp.elim
  | stopCommunication => exact hp.elim
  | incomingCallResponse response caller => exact hp.elim

/-- In every undisturbed run each answer goes to a page that waits for it, no page has two of them on the
way, and a page that waits or is in a call has the peer that it needs. -/
theorem answers_are_awaited (nameOf : String → String) (hinj : Function.Injective nameOf) (events : List Event)
    (hundisturbed : Along step (Undisturbed nameOf) Net.init events) (x : String) :
    let n := run step Net.init events
    (∀ message, (x, message) ∈ n.toPage → Answers message → (n.pages x).callState = .processingCall) ∧
      (n.toPage.countP fun p => decide (p.1 = x ∧ Answers p.2)) ≤ 1 ∧
      ((n.pages x).callState ≠ .noCall → (n.pages x).webRtcPeer = true) := by
  intro n
  have hw := (run_sound hinj hundisturbed).waits x
  have howed : weigh (owedByMessage nameOf x) n.toPage ≤ if (n.pages x).callState = .processingCall then 1 else 0 :=
    Nat.le_trans (Nat.le_add_left _ _) hw.owed
  refine ⟨fun message hmessage hanswers => ?_, ?_, hw.peer⟩
  · have hone : 1 ≤ owedByMessage nameOf x (x, message) := owed_of_answers nameOf rfl hanswers
    have hle := le_weigh (owedByMessage nameOf x) hmessage
    by_contra hnot
    rw [if_neg hnot] at howed
    omega
  · have hcount := countP_le_weigh (w := owedByMessage nameOf x) (p := fun p => decide (p.1 = x ∧ Answers p.2))
      (fun p hp => owed_of_answers nameOf (of_decide_eq_true hp).1 (of_decide_eq_true hp).2) n.toPage
    split at howed <;> omega

/-- Kurento and the sockets do what they are asked. -/
def willing : Fate := ⟨true, true, ⟨true, true, none, true⟩⟩

/-- Anna and Ben register. -/
def registered : List Event :=
  [.onopen "anna", .onopen "ben", .register "anna" "anna", .register "ben" "ben", .handle "anna" willing,
    .handle "ben" willing, .onmessage "anna" false, .onmessage "ben" false]

/-- Anna calls Ben. -/
def calling : List Event :=
  [.call "anna" "ben", .created "anna" .call false, .offered "anna" .call (some "offer") "anna" "ben",
    .handle "anna" willing]

/-- Ben accepts. -/
def accepting : List Event :=
  [.onmessage "ben" true, .created "ben" .incomingCall false,
    .offered "ben" .incomingCall (some "offer") "ben" "", .handle "ben" willing]

/-- Both answers are on the way. -/
theorem answers_are_awaited_accepted :
    let n := run step Net.init (registered ++ calling ++ accepting)
    n.toPage = [("ben", .startCommunication), ("anna", .callResponse "accepted")] ∧
      (n.pages "anna").callState = .processingCall :=
  ⟨by decide +kernel, (answers_are_awaited id Function.injective_id (registered ++ calling ++ accepting)
    (by decide +kernel) "anna").1 (.callResponse "accepted") (by decide +kernel) trivial⟩

/-- A page whose call has been declined, by a user or by a busy page, is not told. Whatever anybody does
then, it keeps waiting, with its buttons disabled, until its peer fails or a message comes that
has nothing to do with the call: that it is registered, or that some communication has stopped. -/
theorem declined_caller_keeps_waiting (nameOf : String → String) (hinj : Function.Injective nameOf)
    (events later : List Event) (x y response : String) (sdpOffer : Option String)
    (rest : List (String × ClientMessage)) (fate : Fate)
    (hundisturbed : Along step (Undisturbed nameOf) Net.init (events ++ [Event.handle y fate]))
    (hopen : ((run step Net.init events).pages y).readyState ≠ .closed)
    (hdeclined : receive y (run step Net.init events).toServer =
      some (.incomingCallResponse (some (nameOf x)) response sdpOffer, rest)) (hresponse : response ≠ "accept")
    (hlater : Along step (fun n e => Undisturbed nameOf n e ∧ setsBack n e ≠ some x)
      (run step Net.init (events ++ [Event.handle y fate])) later) :
    ((run step Net.init (events ++ Event.handle y fate :: later)).pages x).callState = .processingCall := by
  have hsound := run_sound hinj hundisturbed
  have hbefore := run_sound hinj ((along_append step _ _ _ _).mp hundisturbed).1
  have hhung : Hung nameOf (run step Net.init (events ++ [Event.handle y fate])) x := by
    rw [run_append]
    exact decline_hangs hbefore hopen hdeclined hresponse fate
  have hrun : run step Net.init (events ++ Event.handle y fate :: later) =
      run step (run step Net.init (events ++ [Event.handle y fate])) later := by
    rw [← run_append, List.append_assoc]
    rfl
  rw [hrun]
  refine (throughout_of_along (I := fun n => Sound nameOf n ∧ Hung nameOf n x) (fun n e hn he => ?_) _ _
    ⟨hsound, hhung⟩ hlater).run.2.1
  exact ⟨hn.1.step hinj he.1, (step_moves hinj hn.1 he.1.1 x).hung hn.2 he.2⟩

/-- Ben declines. -/
def declining : List Event := registered ++ calling ++ [Event.onmessage "ben" false]

/-- Anna clicks in vain. Ben calls back, and her page is busy. -/
def callingBack : List Event :=
  [.onmessage "anna" false, .call "anna" "ben", .call "ben" "anna", .created "ben" .call false,
    .offered "ben" .call (some "offer") "ben" "anna", .handle "ben" willing, .onmessage "anna" true,
    .handle "anna" willing]

theorem declined_caller_keeps_waiting_called_back :
    ((run step Net.init (declining ++ Event.handle "ben" willing :: callingBack)).pages "anna").callState =
      .processingCall :=
  declined_caller_keeps_waiting id Function.injective_id declining callingBack "anna" "ben" "reject" none [] willing
    (by decide +kernel) (by decide +kernel) (by decide +kernel) (by decide) (by decide +kernel)

end OneToOneProtocol
