import Mqvpn.Hybrid.EgressBooks

/-!
# The sockets of the egress

A flow keeps the socket that it was opened with, and only a request that finds the server below
its budget opens one (`Egress.Descends.step`). As long as the kernel does not give out the number
of a socket that is open, no two flows have one socket.
-/

namespace Mqvpn.Hybrid

/-! ## A flow keeps its socket -/

namespace EgressFlow

variable (f : EgressFlow)

@[simp] theorem updateFdInterest_fd : f.updateFdInterest.fd = f.fd := by
  rw [updateFdInterest]
  split <;> rfl

@[simp] theorem stampIf_fd (moved : Bool) (now : Nat) : (f.stampIf moved now).fd = f.fd := by
  rw [stampIf]
  split <;> rfl

@[simp] theorem maybeShutdownDownlink_fd : f.maybeShutdownDownlink.fd = f.fd := by
  rw [maybeShutdownDownlink]
  split <;> rfl

@[simp] theorem gotFin_fd : f.gotFin.fd = f.fd := maybeShutdownDownlink_fd _

theorem drainLoop_fd (now : Nat) (moved : Bool) (rounds : List Round) :
    (drainLoop now f moved rounds).1.fd = f.fd := by
  induction rounds generalizing f moved with
  | nil =>
    rw [drainLoop, stampIf_fd]
    split
    · exact gotFin_fd _
    · rfl
  | cons a as ih =>
    rw [drainLoop]
    split
    · exact stampIf_fd f moved now
    · rfl
    · dsimp only
      split
      · rfl
      · split
        · rfl
        · rw [stampIf_fd, updateFdInterest_fd]
          rfl
      · split
        · rw [stampIf_fd, gotFin_fd]
          rfl
        · split
          · rw [stampIf_fd]
            rfl
          · rw [ih]
            rfl

theorem drainBody_fd (now : Nat) (rounds : List Round) : (f.drainBody now rounds).1.fd = f.fd := by
  rw [drainBody]
  split
  · rfl
  · exact f.drainLoop_fd now false rounds

theorem flushDownlinkRetry_fd (now : Nat) (sends : List SendAnswer) (rounds : List Round) :
    (f.flushDownlinkRetry now sends rounds).1.fd = f.fd := by
  rw [flushDownlinkRetry]
  dsimp only
  split
  · rfl
  · split <;> rfl
  · split
    · rfl
    · rw [drainBody_fd, updateFdInterest_fd, maybeShutdownDownlink_fd]

theorem tryUplinkFin_fd (answer : SendAnswer) : (f.tryUplinkFin answer).1.fd = f.fd := by
  unfold tryUplinkFin
  split
  · rfl
  · split <;> rfl

theorem pendingUplinkFin_fd (answer : SendAnswer) : (f.pendingUplinkFin answer).1.fd = f.fd := by
  rw [pendingUplinkFin]
  split
  · exact f.tryUplinkFin_fd answer
  · rfl

theorem stashUplink_fd (rest : List UInt8) (alloc : Bool) : (f.stashUplink rest alloc).1.fd = f.fd := by
  rw [stashUplink]
  split
  · rfl
  · exact updateFdInterest_fd _

theorem onH3Writable_fd (now : Nat) (answers : List SendAnswer) (fin : SendAnswer) :
    (f.onH3Writable now answers fin).1.fd = f.fd := by
  rw [onH3Writable]
  split
  · dsimp only
    split
    · rfl
    · exact stampIf_fd _ _ _
    · rw [pendingUplinkFin_fd, updateFdInterest_fd, stampIf_fd]
  · exact f.pendingUplinkFin_fd fin

theorem gotEof_fd (fin : SendAnswer) : (f.gotEof fin).1.fd = f.fd := by
  rw [gotEof, tryUplinkFin_fd, updateFdInterest_fd]

theorem recvLoop_fd (now : Nat) (fin : SendAnswer) (recvs : List UplinkRound) :
    (recvLoop now fin f recvs).1.fd = f.fd := by
  induction recvs generalizing f with
  | nil => exact updateFdInterest_fd f
  | cons a as ih =>
    rw [recvLoop]
    split
    · exact updateFdInterest_fd f
    · rfl
    · exact f.gotEof_fd fin
    · dsimp only
      split
      · exact f.gotEof_fd fin
      · split
        · rfl
        · exact stashUplink_fd _ _ _
        · split
          · exact stashUplink_fd _ _ _
          · rw [ih]

theorem onWriteReady_fd (writable : Bool) (now : Nat) (a : ReadyAnswers) :
    (f.onWriteReady writable now a).1.fd = f.fd := by
  rw [onWriteReady]
  split
  · exact f.flushDownlinkRetry_fd _ _ _
  · rfl

theorem onRelayReady_fd (readable writable : Bool) (now : Nat) (a : ReadyAnswers) :
    (f.onRelayReady readable writable now a).1.fd = f.fd := by
  have hwrite := f.onWriteReady_fd writable now a
  rw [onRelayReady]
  split
  · exact hwrite
  · split
    · rw [recvLoop_fd, hwrite]
    · exact (updateFdInterest_fd _).trans hwrite

theorem onConnected_fd (now : Nat) (rounds : List Round) : (f.onConnected now rounds).1.fd = f.fd := by
  rw [onConnected, drainBody_fd, updateFdInterest_fd]

theorem onBody_fd (now : Nat) (rounds : List Round) : (f.onBody now rounds).1.fd = f.fd := by
  rw [onBody]
  split
  · rfl
  · exact f.drainBody_fd now rounds

theorem fdReady_fd (readable writable soError : Bool) (now : Nat) (a : ReadyAnswers) :
    (f.fdReady readable writable soError now a).1.fd = f.fd := by
  rw [fdReady]
  split
  · split
    · rfl
    · exact f.onConnected_fd now a.rounds
  · exact f.onRelayReady_fd readable writable now a

end EgressFlow

/-! ## What a step does to the sockets -/

namespace Egress

variable {s t u : Egress}

/-- No flow was opened, and every flow has the socket that it had. -/
structure Descends (s t : Egress) : Prop where
  next : t.nextFlow = s.nextFlow
  flows : ∀ id f', t.flows id = some f' → ∃ f, s.flows id = some f ∧ f'.fd = f.fd

namespace Descends

theorem of_eq (hnext : t.nextFlow = s.nextFlow) (hflows : t.flows = s.flows) : Descends s t :=
  ⟨hnext, fun _ f' hf' => ⟨f', hflows ▸ hf', rfl⟩⟩

theorem refl (s : Egress) : Descends s s := .of_eq rfl rfl

theorem trans (h : Descends s t) (h' : Descends t u) : Descends s u := by
  refine ⟨h'.next.trans h.next, fun id f'' hf'' => ?_⟩
  obtain ⟨f', hf', hfd'⟩ := h'.flows id f'' hf''
  obtain ⟨f, hf, hfd⟩ := h.flows id f' hf'
  exact ⟨f, hf, hfd'.trans hfd⟩

theorem setFlow {id : Nat} {f g : EgressFlow} (hf : s.flows id = some f) (hfd : g.fd = f.fd) :
    Descends s (s.setFlow id (some g)) := by
  refine ⟨rfl, fun j f' hf' => ?_⟩
  by_cases hj : j = id
  · subst hj
    obtain rfl : g = f' := Option.some.inj ((Function.update_self j _ s.flows).symm.trans hf')
    exact ⟨f, hf, hfd⟩
  · exact ⟨f', (Function.update_of_ne hj _ _).symm.trans hf', rfl⟩

theorem unlinkFlow (s : Egress) (id : Nat) (f : EgressFlow) (st : EgressStream) :
    Descends s (s.unlinkFlow id f st) := by
  have hnext : (s.unlinkFlow id f st).nextFlow = s.nextFlow := by
    cases hn : s.conns st.conn <;> simp [Egress.unlinkFlow, Egress.setFlow, Egress.setStream, hn]
  have hflows : (s.unlinkFlow id f st).flows = Function.update s.flows id none := by
    cases hn : s.conns st.conn <;> simp [Egress.unlinkFlow, Egress.setFlow, Egress.setStream, hn]
  refine ⟨hnext, fun j f' hf' => ?_⟩
  rw [hflows] at hf'
  by_cases hj : j = id
  · rw [hj, Function.update_self] at hf'
    cases hf'
  · exact ⟨f', (Function.update_of_ne hj _ _).symm.trans hf', rfl⟩

theorem flowDestroy (s : Egress) (id : Nat) : Descends s (s.flowDestroy id) := by
  rw [Egress.flowDestroy]
  split
  · exact .of_eq rfl rfl
  · split
    · exact .of_eq rfl rfl
    · exact unlinkFlow s id _ _

theorem destroyOf (s : Egress) (st : EgressStream) : Descends s (s.destroyOf st) := by
  rw [Egress.destroyOf]
  split
  · exact refl s
  · split
    · exact flowDestroy s _
    · exact refl s

theorem cbRequestClose (s : Egress) (stream : Nat) : Descends s (s.cbRequestClose stream) := by
  rw [Egress.cbRequestClose]
  split
  · exact .of_eq rfl rfl
  · exact (destroyOf s _).trans (.of_eq rfl rfl)

theorem ended {id : Nat} {f : EgressFlow} {r : EgressFlow × EgressFlow.Outcome} (hf : s.flows id = some f)
    (hfd : r.1.fd = f.fd) (sync : Bool) : Descends s (s.ended id r sync) := by
  have hset : Descends s (s.setFlow id (some r.1)) := .setFlow hf hfd
  rw [Egress.ended]
  split
  · exact hset
  · rw [Egress.requestClose]
    split
    · exact hset.trans (cbRequestClose _ _)
    · exact hset
  · exact hset.trans (flowDestroy _ _)

theorem onFlow {g : EgressFlow → EgressFlow × EgressFlow.Outcome} (hg : ∀ f, (g f).1.fd = f.fd) (s : Egress) (id : Nat)
    (sync : Bool) : Descends s (s.onFlow id g sync) := by
  rw [Egress.onFlow]
  split
  · exact .of_eq rfl rfl
  · rename_i f hf
    exact ended hf (hg f) sync

theorem onStream {g : EgressFlow → EgressFlow × EgressFlow.Outcome} (hg : ∀ f, (g f).1.fd = f.fd) (s : Egress)
    (stream : Nat) (sync : Bool) : Descends s (s.onStream stream g sync) := by
  rw [Egress.onStream]
  split
  · exact refl s
  · exact onFlow hg s _ sync

theorem sweep {step : Egress → Nat → Egress} (hstep : ∀ t id, Descends t (step t id)) (ids : List Nat) :
    Descends s (ids.foldl step s) := by
  induction ids generalizing s with
  | nil => exact refl s
  | cons id ids ih => exact (hstep s id).trans ih

theorem expired_fd (s : Egress) (now : Nat) (f : EgressFlow) : (s.expired now f).1.fd = f.fd := by
  rw [expired]
  split
  · rfl
  · rw [idle]
    split <;> rfl

theorem connectFlow {id : Nat} {f : EgressFlow} (hf : s.flows id = some f) (a : RequestAnswers) :
    Descends s (s.connectFlow id f a) := by
  rw [Egress.connectFlow]
  split
  · exact ended hf (f.onConnected_fd a.now _) a.sync
  · exact flowDestroy s id
  · split
    · exact setFlow hf rfl
    · exact refl s

end Descends

/-- What a step makes of the flows: they descend from those there were, but for one that a
    request has opened below the budget. -/
inductive Sockets (s : Egress) (e : Step) (t : Egress) : Prop
  | kept (h : Descends s t)
  | opened (stream : Nat) (a : RequestAnswers) (fd : Nat) (request : e = .request stream a) (socket : a.fd = some fd)
    (below : s.globalFdCount < s.egressFdBudget)
    (flows : ∀ id f', t.flows id = some f' → (id = s.nextFlow ∧ f'.fd = fd) ∨ ∃ f, s.flows id = some f ∧ f'.fd = f.fd)

theorem sockets_request (s : Egress) (stream : Nat) (a : RequestAnswers) :
    Sockets s (.request stream a) (s.onRequest stream a) := by
  rw [onRequest]
  split
  · exact .kept (.of_eq rfl rfl)
  split
  · exact .kept (.of_eq rfl rfl)
  dsimp only
  split
  case isFalse => exact .kept (.of_eq rfl rfl)
  rw [startConnect]
  split
  · exact .kept (.of_eq rfl rfl)
  split
  · exact .kept (.of_eq rfl rfl)
  rename_i hbudget
  split
  · exact .kept (.of_eq rfl rfl)
  split
  · exact .kept (.of_eq rfl rfl)
  rename_i fd hfd
  split
  · exact .kept (.of_eq rfl rfl)
  dsimp only
  split
  · rename_i hnone
    cases (Function.update_self s.nextFlow _ s.flows).symm.trans hnone
  rename_i f hf
  refine .opened stream a fd rfl hfd (Nat.lt_of_not_le hbudget) fun id f' hf' => ?_
  obtain ⟨g, hg, hfd'⟩ := (Descends.connectFlow hf a).flows id f' hf'
  by_cases hid : id = s.nextFlow
  · subst hid
    obtain rfl := Option.some.inj ((Function.update_self s.nextFlow _ s.flows).symm.trans hg)
    exact .inl ⟨rfl, hfd'⟩
  · exact .inr ⟨g, (Function.update_of_ne hid _ _).symm.trans hg, hfd'⟩

theorem sockets_step (s : Egress) (e : Step) : Sockets s e (s.step e) := by
  cases e with
  | connOpen conn => exact .kept (.of_eq rfl rfl)
  | connClose conn => exact .kept (.of_eq rfl rfl)
  | streamOpen stream conn => exact .kept (.of_eq rfl rfl)
  | request stream a => exact sockets_request s stream a
  | body stream now rounds sync => exact .kept (.onStream (fun f => f.onBody_fd now rounds) s stream sync)
  | writable stream now answers fin sync =>
    exact .kept (.onStream (fun f => f.onH3Writable_fd now answers fin) s stream sync)
  | fdReady flow readable writable soError now a sync =>
    exact .kept (.onFlow (fun f => f.fdReady_fd readable writable soError now a) s flow sync)
  | tick now sync =>
    exact .kept (.sweep (fun t id => .onFlow (Descends.expired_fd t now) t id (sync id)) s.flowList)
  | reset stream =>
    refine .kept ?_
    rw [step, cbRequestClosing]
    split
    · exact .of_eq rfl rfl
    · exact .destroyOf s _
  | close stream => exact .kept (.cbRequestClose s stream)
  | destroyAll =>
    exact .kept (.sweep Descends.flowDestroy s.flowList)

/-- No two flows have one socket. -/
def Distinct (s : Egress) : Prop := ∀ i j f g, s.flows i = some f → s.flows j = some g → f.fd = g.fd → i = j

/-- The kernel does not give out the number of a socket that is open. -/
def NewSocket (s : Egress) (e : Step) : Prop :=
  ∀ stream a fd, e = .request stream a → a.fd = some fd → ∀ id f, s.flows id = some f → f.fd ≠ fd

theorem Distinct.step (h : s.Distinct) {e : Step} (hnew : s.NewSocket e) : (s.step e).Distinct := by
  intro i j f' g' hf' hg' hfd
  rcases sockets_step s e with hkept | ⟨stream, a, fd, hrequest, hsocket, -, hflows⟩
  · obtain ⟨f, hf, hff⟩ := hkept.flows i f' hf'
    obtain ⟨g, hg, hgg⟩ := hkept.flows j g' hg'
    exact h i j f g hf hg (hff.symm.trans (hfd.trans hgg))
  · have hopen := hnew stream a fd hrequest hsocket
    rcases hflows i f' hf' with ⟨hi, hff⟩ | ⟨f, hf, hff⟩ <;> rcases hflows j g' hg' with ⟨hj, hgg⟩ | ⟨g, hg, hgg⟩
    · exact hi.trans hj.symm
    · exact absurd (hgg.symm.trans (hfd.symm.trans hff)) (hopen j g hg)
    · exact absurd (hff.symm.trans (hfd.trans hgg)) (hopen i f hf)
    · exact h i j f g hf hg (hff.symm.trans (hfd.trans hgg))

end Egress

end Mqvpn.Hybrid
