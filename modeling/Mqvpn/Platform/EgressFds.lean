import Mqvpn.Hybrid.EgressSockets
import Mqvpn.Lib.Slots

/-!
# The registry of the egress sockets

The core of the server opens, uses and closes the sockets of the egress; on Linux the platform
polls them for it. For every socket that the core waits for it keeps a slot with the armed event,
in an array that is as large as the core's budget. It is told what to wait for by a new
registration, which replaces the event, and that a socket is about to be closed.

The core relies on the platform to report only sockets that it waits for (`Egress.Proper`), and
asserts that the socket is that of the flow. Both hold in every run of the two
(`EgressServer.served_run`): the slots are those of flows that live, also when the numbers of
sockets come back, and there is always a slot left.
-/

namespace Mqvpn.Platform

open Hybrid

/-! ## The registry -/

/-- `egress_fd_slot_t` of a slot in use, with the flags of its event -/
structure EgressFdSlot where
  fd : Nat
  /-- The flow. -/
  fdCtx : Nat
  wantRead : Bool
  wantWrite : Bool
  deriving DecidableEq, Repr

/-- `egress_fds`: a slot without an event has the `fd` -1. -/
structure EgressFds where
  slots : List (Option EgressFdSlot)
  /-- For the statements: a socket was turned away, since the registry was full. -/
  full : Bool := false

/-- What `event_new` and `event_add` answer. -/
structure EventAnswer where
  new : Bool
  add : Bool

/-- What the core asks for, of the socket of a flow. -/
inductive Call where
  | register (fd : Nat) (wantRead wantWrite : Bool) (flow : Nat) (a : EventAnswer)
  | unregister (fd : Nat)

namespace EgressFds

variable (r : EgressFds)

def findEgressSlot (fd : Nat) : Option Nat := Slots.find EgressFdSlot.fd r.slots fd

def findOrAllocEgressSlot (fd : Nat) : Option Nat :=
  match r.findEgressSlot fd with
  | some i => some i
  | none => Slots.free r.slots

/-- `platform_egress_fd_register`: an earlier event goes in any case. -/
def platformEgressFdRegister (fd : Nat) (wantRead wantWrite : Bool) (fdCtx : Nat) (a : EventAnswer) : EgressFds :=
  match r.findOrAllocEgressSlot fd with
  | none => { r with full := true }
  | some i =>
    if a.new && a.add then { r with slots := r.slots.set i (some { fd, fdCtx, wantRead, wantWrite }) }
    else { r with slots := r.slots.set i none }

/-- `platform_egress_fd_unregister` -/
def platformEgressFdUnregister (fd : Nat) : EgressFds :=
  match r.findEgressSlot fd with
  | none => r
  | some i => { r with slots := r.slots.set i none }

def call : Call → EgressFds
  | .register fd wantRead wantWrite flow a => r.platformEgressFdRegister fd wantRead wantWrite flow a
  | .unregister fd => r.platformEgressFdUnregister fd

/-- What is polled for a socket. -/
def polled (fd : Nat) : Option EgressFdSlot := Slots.entry EgressFdSlot.fd r.slots fd

end EgressFds

namespace Call

def fd : Call → Nat
  | register fd _ _ _ _ => fd
  | unregister fd => fd

/-- What is polled after the call. -/
def outcome : Call → Option EgressFdSlot
  | register fd wantRead wantWrite fdCtx a => if a.new && a.add then some { fd, fdCtx, wantRead, wantWrite } else none
  | unregister _ => none

def registers : Call → Prop
  | register _ _ _ _ _ => True
  | unregister _ => False

/-- The last call for a socket. -/
def last (fd : Nat) : List Call → Option Call
  | [] => none
  | c :: cs =>
    match last fd cs with
    | some c' => some c'
    | none => if c.fd = fd then some c else none

theorem mem_of_last {fd : Nat} {c : Call} {cs : List Call} (h : last fd cs = some c) : c ∈ cs ∧ c.fd = fd := by
  induction cs with
  | nil => cases h
  | cons c' cs ih =>
    rw [last] at h
    cases hlast : last fd cs with
    | some d =>
      rw [hlast] at h
      obtain ⟨hmem, heq⟩ := ih (hlast.trans h)
      exact ⟨List.mem_cons_of_mem _ hmem, heq⟩
    | none =>
      rw [hlast] at h
      dsimp only at h
      split_ifs at h with heq
      obtain rfl := Option.some.inj h
      exact ⟨List.mem_cons_self, heq⟩

/-- The events could be armed. -/
def Armed : Call → Prop
  | register _ _ _ _ a => a.new = true ∧ a.add = true
  | unregister _ => True

end Call

/-! ## The registry is a map -/

namespace EgressFds

variable {r : EgressFds} {n : Nat} {sockets : List Nat}

/-- There is a slot for each of the sockets, and the slots are for these. -/
structure Roomy (r : EgressFds) (sockets : List Nat) : Prop where
  keyed : Slots.Keyed EgressFdSlot.fd r.slots
  room : sockets.length ≤ r.slots.length
  among : ∀ slot ∈ r.slots.reduceOption, slot.fd ∈ sockets
  full : r.full = false

theorem polled_eq_some (h : Slots.Keyed EgressFdSlot.fd r.slots) {fd : Nat} {slot : EgressFdSlot} :
    r.polled fd = some slot ↔ slot ∈ r.slots.reduceOption ∧ slot.fd = fd :=
  Slots.entry_eq_some h

/-- A socket finds its slot, or an empty one. -/
theorem Roomy.findOrAlloc (h : r.Roomy sockets) {fd : Nat} (hfd : fd ∈ sockets) :
    ∃ i, r.findOrAllocEgressSlot fd = some i ∧
      ((∃ slot, r.slots[i]? = some (some slot) ∧ slot.fd = fd) ∨
        (r.slots[i]? = some none ∧ ∀ slot ∈ r.slots.reduceOption, slot.fd ≠ fd)) := by
  rw [findOrAllocEgressSlot]
  cases hfind : r.findEgressSlot fd with
  | some i => exact ⟨i, rfl, .inl (Slots.find_eq_some hfind)⟩
  | none =>
    have hnew : ∀ slot ∈ r.slots.reduceOption, slot.fd ≠ fd := fun slot => Slots.find_eq_none hfind
    cases hfree : Slots.free r.slots with
    | some i => exact ⟨i, rfl, .inr ⟨Slots.getElem?_free hfree, hnew⟩⟩
    | none =>
      -- the sockets of the slots and this one would be too many
      have hall : (fd :: r.slots.reduceOption.map EgressFdSlot.fd).Nodup := by
        refine List.nodup_cons.2 ⟨fun hmem => ?_, h.keyed⟩
        obtain ⟨slot, hslot, heq⟩ := List.mem_map.1 hmem
        exact hnew slot hslot heq
      have hsub : fd :: r.slots.reduceOption.map EgressFdSlot.fd ⊆ sockets := by
        refine List.cons_subset.2 ⟨hfd, fun x hx => ?_⟩
        obtain ⟨slot, hslot, rfl⟩ := List.mem_map.1 hx
        exact h.among slot hslot
      have hle := (List.subperm_of_subset hall hsub).length_le
      have hlen := Slots.length_of_free hfree
      have hroom := h.room
      rw [List.length_cons, List.length_map, hlen] at hle
      omega

theorem Roomy.set (h : r.Roomy sockets) {i : Nat} {o : Option EgressFdSlot}
    (hkeyed : Slots.Keyed EgressFdSlot.fd (r.slots.set i o)) (ho : ∀ slot ∈ o, slot.fd ∈ sockets) :
    Roomy { r with slots := r.slots.set i o } sockets := by
  refine ⟨hkeyed, h.room.trans_eq List.length_set.symm, fun slot hslot => ?_, h.full⟩
  obtain ⟨j, hj⟩ := Slots.mem_reduceOption_iff_getElem?.1 hslot
  rcases Slots.getElem?_set_of_some hj with ⟨-, heq⟩ | ⟨-, hold⟩
  · exact ho slot heq.symm
  · exact h.among slot (Slots.mem_reduceOption_iff_getElem?.2 ⟨j, hold⟩)

theorem polled_eq_none {fd : Nat} (h : Slots.Keyed EgressFdSlot.fd r.slots)
    (hno : ∀ slot ∈ r.slots.reduceOption, slot.fd ≠ fd) : r.polled fd = none := by
  cases hpolled : r.polled fd with
  | none => rfl
  | some slot =>
    obtain ⟨hslot, heq⟩ := (polled_eq_some h).1 hpolled
    exact absurd heq (hno slot hslot)

/-- A call is about one socket, and leaves what it says. -/
theorem Roomy.call (h : r.Roomy sockets) {c : Call} (hc : c.registers → c.fd ∈ sockets) :
    (r.call c).Roomy sockets ∧ (r.call c).polled = Function.update r.polled c.fd c.outcome := by
  cases c with
  | register fd wantRead wantWrite flow a =>
    have hfd : fd ∈ sockets := hc trivial
    obtain ⟨i, hi, hslot⟩ := h.findOrAlloc hfd
    rw [EgressFds.call, platformEgressFdRegister, hi]
    dsimp only
    by_cases ha : (a.new && a.add) = true
    · rw [if_pos ha, Call.outcome, if_pos ha]
      obtain ⟨hkeyed, hentry⟩ :=
        show Slots.Keyed EgressFdSlot.fd (r.slots.set i (some ⟨fd, flow, wantRead, wantWrite⟩)) ∧
            Slots.entry EgressFdSlot.fd (r.slots.set i (some ⟨fd, flow, wantRead, wantWrite⟩)) =
              Function.update (Slots.entry EgressFdSlot.fd r.slots) fd (some ⟨fd, flow, wantRead, wantWrite⟩) from by
          rcases hslot with ⟨slot, hslot, heq⟩ | ⟨hslot, hnew⟩
          · exact Slots.entry_set_of_eq h.keyed hslot heq
          · exact Slots.entry_set_some h.keyed hslot hnew
      refine ⟨h.set hkeyed ?_, hentry⟩
      rintro _ ⟨⟩
      exact hfd
    · rw [if_neg ha, Call.outcome, if_neg ha]
      rcases hslot with ⟨slot, hslot, rfl⟩ | ⟨hslot, hnew⟩
      · obtain ⟨hkeyed, hentry⟩ := Slots.entry_set_none h.keyed hslot
        exact ⟨h.set hkeyed (by rintro _ ⟨⟩), hentry⟩
      · -- the empty slot stays empty
        have hsame : r.slots.set i none = r.slots := by
          obtain ⟨hlt, hnone⟩ := List.getElem?_eq_some_iff.1 hslot
          rw [← hnone, List.set_getElem_self]
        rw [hsame]
        exact ⟨h, (Function.update_eq_self_iff.2 (polled_eq_none h.keyed hnew).symm).symm⟩
  | unregister fd =>
    rw [EgressFds.call, platformEgressFdUnregister]
    cases hfind : r.findEgressSlot fd with
    | none =>
      have hnone := polled_eq_none h.keyed fun slot => Slots.find_eq_none hfind
      exact ⟨h, (Function.update_eq_self_iff.2 hnone.symm).symm⟩
    | some i =>
      obtain ⟨slot, hslot, rfl⟩ := Slots.find_eq_some hfind
      obtain ⟨hkeyed, hentry⟩ := Slots.entry_set_none h.keyed hslot
      exact ⟨h.set hkeyed (by rintro _ ⟨⟩), hentry⟩

/-- After any calls, a socket is polled as its last call says. -/
theorem Roomy.calls (h : r.Roomy sockets) {cs : List Call} (hcs : ∀ c ∈ cs, c.registers → c.fd ∈ sockets) :
    (cs.foldl EgressFds.call r).Roomy sockets ∧ ∀ fd, (cs.foldl EgressFds.call r).polled fd =
      match Call.last fd cs with
      | none => r.polled fd
      | some c => c.outcome := by
  induction cs generalizing r with
  | nil => exact ⟨h, fun _ => rfl⟩
  | cons c cs ih =>
    obtain ⟨hc, hcs⟩ := List.forall_mem_cons.1 hcs
    obtain ⟨hroomy, hpolled⟩ := h.call hc
    obtain ⟨hrest, hlast⟩ := ih hroomy hcs
    refine ⟨hrest, fun fd => ?_⟩
    rw [List.foldl_cons, hlast fd, Call.last]
    cases Call.last fd cs with
    | some c' => rfl
    | none =>
      dsimp only
      rw [hpolled]
      split_ifs with heq
      · rw [← heq, Function.update_self]
      · rw [Function.update_of_ne (Ne.symm heq)]

theorem length_call (r : EgressFds) (c : Call) : (r.call c).slots.length = r.slots.length := by
  cases c with
  | register fd wantRead wantWrite flow a =>
    rw [EgressFds.call, platformEgressFdRegister]
    split
    · rfl
    · split_ifs <;> exact List.length_set
  | unregister fd =>
    rw [EgressFds.call, platformEgressFdUnregister]
    split
    · rfl
    · exact List.length_set

theorem length_calls (r : EgressFds) (cs : List Call) : (cs.foldl EgressFds.call r).slots.length = r.slots.length := by
  induction cs generalizing r with
  | nil => rfl
  | cons c cs ih => exact (ih (r.call c)).trans (length_call r c)

end EgressFds

/-! ## The core and its platform -/

/-- The core waits for the socket of a flow. -/
def Asks (s : Egress) (flow fd : Nat) (interest : Bool × Bool) : Prop :=
  ∃ f, s.flows flow = some f ∧ f.fd = fd ∧ f.interest = some interest

/-- What a call says of the core after the step. -/
def Call.Says (t : Egress) : Call → Prop
  | .register fd wantRead wantWrite flow _ => Asks t flow fd (wantRead, wantWrite)
  | .unregister fd => ∀ flow i, ¬Asks t flow fd i

/-- The calls that are made within a step of the core: it registers the sockets of its flows, and
    the last call for a socket says what the core waits for from then on. -/
structure Explains (s : Egress) (e : Egress.Step) (cs : List Call) : Prop where
  registers : ∀ c ∈ cs, c.registers → (∃ id f, s.flows id = some f ∧ f.fd = c.fd) ∨
    (s.nextFlow < (s.step e).nextFlow ∧ ∃ stream a, e = .request stream a ∧ a.fd = some c.fd)
  last : ∀ fd,
    match Call.last fd cs with
    | none => ∀ flow i, Asks (s.step e) flow fd i ↔ Asks s flow fd i
    | some c => c.Says (s.step e)

/-- The server on Linux. -/
structure EgressServer where
  core : Egress
  fds : EgressFds

namespace EgressServer

/-- A step of the core that is no event of a socket, or the event of a slot, with the calls that
    are made within it. -/
inductive Step where
  | core (e : Egress.Step) (cs : List Call)
  | event (slot : Nat) (readable writable soError : Bool) (now : Nat) (a : EgressFlow.ReadyAnswers) (sync : Bool)
    (cs : List Call)

variable (s : EgressServer)

/-- The armed event of a slot. -/
def armed (slot : Nat) : Option EgressFdSlot := s.fds.slots[slot]?.join

/-- `on_egress_fd_event` is called for events that are armed: `event_del` takes back an event
    that was pending. -/
def coreStep : Step → Option Egress.Step
  | .core e _ => some e
  | .event slot readable writable soError now a sync _ =>
    (s.armed slot).map fun i => .fdReady i.fdCtx readable writable soError now a sync

def Step.calls : Step → List Call
  | .core _ cs => cs
  | .event _ _ _ _ _ _ _ cs => cs

def step (e : Step) : EgressServer :=
  match s.coreStep e with
  | none => s
  | some i => { core := s.core.step i, fds := e.calls.foldl EgressFds.call s.fds }

/-- The events of the sockets come from the registry; for the other steps the library and the
    kernel keep their promises. -/
def Sane (e : Step) : Prop :=
  (∀ i ∈ s.coreStep e, Explains s.core i e.calls ∧ s.core.NewSocket i) ∧
    ∀ i cs, e = .core i cs → s.core.Proper i ∧ ∀ flow r w so now a sync, i ≠ .fdReady flow r w so now a sync

/-- After `mqvpn_server_new`: the registry is as large as the budget. -/
def start (tcpMaxFlows tcpConnectTimeoutSec tcpIdleTimeoutSec egressFdBudget : Nat) : EgressServer where
  core := Egress.start tcpMaxFlows tcpConnectTimeoutSec tcpIdleTimeoutSec egressFdBudget
  fds := { slots := List.replicate egressFdBudget none }

def run (steps : List Step) : EgressServer := steps.foldl step s

/-- What is polled is what the core waits for, and never for want of a slot. -/
structure Served (s : EgressServer) : Prop where
  keyed : Slots.Keyed EgressFdSlot.fd s.fds.slots
  budget : s.fds.slots.length = s.core.egressFdBudget
  asked : ∀ fd slot, s.fds.polled fd = some slot → Asks s.core slot.fdCtx fd (slot.wantRead, slot.wantWrite)
  full : s.fds.full = false

/-- What the core waits for is polled. -/
def Polls (s : EgressServer) : Prop :=
  ∀ flow fd i, Asks s.core flow fd i → s.fds.polled fd = some ⟨fd, flow, i.1, i.2⟩

/-! ## One step -/

/-- The sockets that may be registered within a step are not more than the budget. -/
theorem exists_sockets {s : Egress} (h : s.Inv) (e : Egress.Step) :
    ∃ sockets : List Nat, sockets.length ≤ s.egressFdBudget ∧ (∀ id f, s.flows id = some f → f.fd ∈ sockets) ∧
      (s.nextFlow < (s.step e).nextFlow → ∀ stream a, e = .request stream a → ∀ fd, a.fd = some fd → fd ∈ sockets) := by
  have hlen : (s.flowList.filterMap fun id => (s.flows id).map EgressFlow.fd).length ≤ s.globalFdCount :=
    h.global.1 ▸ List.length_filterMap_le _ _
  have hmem : ∀ id f, s.flows id = some f → f.fd ∈ s.flowList.filterMap fun id => (s.flows id).map EgressFlow.fd := by
    intro id f hf
    refine List.mem_filterMap.2 ⟨id, (h.listed id).2 (by rw [hf]; rfl), ?_⟩
    rw [hf]
    rfl
  rcases Egress.sockets_step s e with hkept | ⟨stream, a, fd, hrequest, hsocket, hbelow, -⟩
  · refine ⟨_, hlen.trans h.global.2, hmem, fun hlt => ?_⟩
    rw [hkept.next] at hlt
    exact absurd hlt (Nat.lt_irrefl _)
  · refine ⟨fd :: _, (Nat.succ_le_succ hlen).trans hbelow, fun id f hf => List.mem_cons_of_mem _ (hmem id f hf), ?_⟩
    rintro - stream' a' heq fd' hsocket'
    cases hrequest.symm.trans heq
    rw [← Option.some.inj (hsocket.symm.trans hsocket')]
    exact List.mem_cons_self

variable {s : EgressServer} {e : Step}

/-- The calls of a step find room, and the last one for a socket decides. -/
theorem Served.calls (h : s.Served) (hinv : s.core.Inv) {i : Egress.Step} {cs : List Call}
    (hcs : Explains s.core i cs) :
    (cs.foldl EgressFds.call s.fds).full = false ∧ Slots.Keyed EgressFdSlot.fd (cs.foldl EgressFds.call s.fds).slots ∧
      ∀ fd, (cs.foldl EgressFds.call s.fds).polled fd =
        match Call.last fd cs with
        | none => s.fds.polled fd
        | some c => c.outcome := by
  obtain ⟨sockets, hlen, hold, hnew⟩ := exists_sockets hinv i
  have hroomy : s.fds.Roomy sockets := by
    refine ⟨h.keyed, h.budget ▸ hlen, fun slot hslot => ?_, h.full⟩
    obtain ⟨f, hf, hfd, -⟩ := h.asked slot.fd slot ((EgressFds.polled_eq_some h.keyed).2 ⟨hslot, rfl⟩)
    exact hfd ▸ hold _ f hf
  obtain ⟨hafter, hpolled⟩ := hroomy.calls fun c hc hregisters => by
    rcases hcs.registers c hc hregisters with ⟨id, f, hf, hfd⟩ | ⟨hlt, stream, a, hrequest, hsocket⟩
    · exact hfd ▸ hold id f hf
    · exact hnew hlt stream a hrequest c.fd hsocket
  exact ⟨hafter.full, hafter.keyed, hpolled⟩

theorem Served.step (h : s.Served) (hinv : s.core.Inv) {i : Egress.Step} {cs : List Call}
    (hcs : Explains s.core i cs) : Served { core := s.core.step i, fds := cs.foldl EgressFds.call s.fds } := by
  obtain ⟨hfull, hkeyed, hpolled⟩ := h.calls hinv hcs
  have hbudget : (s.core.step i).egressFdBudget = s.core.egressFdBudget := congrArg Prod.snd (Egress.step_limits i)
  refine ⟨hkeyed, ?_, fun fd slot hslot => ?_, hfull⟩
  · rw [hbudget, EgressFds.length_calls]
    exact h.budget
  · have hlast := hcs.last fd
    rw [hpolled fd] at hslot
    cases hc : Call.last fd cs with
    | none =>
      rw [hc] at hslot hlast
      exact (hlast _ _).2 (h.asked fd slot hslot)
    | some c =>
      rw [hc] at hslot hlast
      have hfd := (Call.mem_of_last hc).2
      cases c with
      | register fd' wantRead wantWrite flow a =>
        obtain rfl : fd' = fd := hfd
        dsimp only at hslot
        rw [Call.outcome] at hslot
        split_ifs at hslot
        obtain rfl := Option.some.inj hslot
        exact hlast
      | unregister fd' => cases hslot

/-- The platform misses nothing, if its events can be armed. -/
theorem Polls.step (h : s.Polls) (hserved : s.Served) (hinv : s.core.Inv) {i : Egress.Step} {cs : List Call}
    (hcs : Explains s.core i cs) (hdistinct : (s.core.step i).Distinct) (harmed : ∀ c ∈ cs, c.Armed) :
    Polls { core := s.core.step i, fds := cs.foldl EgressFds.call s.fds } := by
  obtain ⟨-, -, hpolled⟩ := hserved.calls hinv hcs
  intro flow fd interest hasks
  have hlast := hcs.last fd
  rw [hpolled fd]
  cases hc : Call.last fd cs with
  | none =>
    rw [hc] at hlast
    exact h flow fd interest ((hlast _ _).1 hasks)
  | some c =>
    rw [hc] at hlast
    obtain ⟨hmem, hfd⟩ := Call.mem_of_last hc
    cases c with
    | register fd' wantRead wantWrite flow' a =>
      obtain rfl : fd' = fd := hfd
      obtain ⟨f, hf, hffd, hinterest⟩ := hasks
      obtain ⟨g, hg, hgfd, hinterest'⟩ := hlast
      obtain rfl := hdistinct flow flow' f g hf hg (hffd.trans hgfd.symm)
      obtain rfl := Option.some.inj (hf.symm.trans hg)
      obtain rfl := Option.some.inj (hinterest.symm.trans hinterest')
      have ha := harmed _ hmem
      exact if_pos (by rw [ha.1, ha.2]; rfl)
    | unregister fd' =>
      obtain rfl : fd' = fd := hfd
      exact absurd hasks (hlast _ _)

/-- An event that is armed is for a flow that lives, has this socket, and waits for it. -/
theorem Served.armed (h : s.Served) {slot : Nat} {i : EgressFdSlot} (hi : s.armed slot = some i) :
    Asks s.core i.fdCtx i.fd (i.wantRead, i.wantWrite) := by
  have hslot : s.fds.slots[slot]? = some (some i) := Option.join_eq_some_iff.1 hi
  refine h.asked i.fd i ((EgressFds.polled_eq_some h.keyed).2 ⟨?_, rfl⟩)
  exact Slots.mem_reduceOption_iff_getElem?.2 ⟨slot, hslot⟩

/-- The platform reports what it has promised to the core. -/
theorem Served.proper (h : s.Served) (hsane : s.Sane e) {i : Egress.Step} (hi : s.coreStep e = some i) :
    s.core.Proper i := by
  cases e with
  | core i' cs =>
    obtain rfl := Option.some.inj hi
    exact (hsane.2 i' cs rfl).1
  | event slot readable writable soError now a sync cs =>
    obtain ⟨armed, harmed, rfl⟩ := Option.map_eq_some_iff.1 hi
    obtain ⟨f, hf, -, hinterest⟩ := h.armed harmed
    exact ⟨f, hf, by rw [hinterest]; rfl⟩

/-! ## Runs -/

/-- What holds in every state: the core has made a proper run of its own. -/
structure Inv (core₀ : Egress) (s : EgressServer) : Prop where
  proper : ∃ es, Runs.Along Egress.step Egress.Proper core₀ es ∧ s.core = core₀.run es
  core : s.core.Inv
  distinct : s.core.Distinct
  served : s.Served

theorem Inv.step {core₀ : Egress} (h : Inv core₀ s) (hsane : s.Sane e) : Inv core₀ (s.step e) := by
  rw [EgressServer.step]
  cases hi : s.coreStep e with
  | none => exact h
  | some i =>
    have hproper := h.served.proper hsane hi
    obtain ⟨hexplains, hnew⟩ := hsane.1 i hi
    obtain ⟨es, hes, hcore⟩ := h.proper
    refine ⟨⟨es ++ [i], (Runs.along_append _ _ _).2 ⟨hes, ?_, trivial⟩, ?_⟩, h.core.step hproper, h.distinct.step hnew,
      h.served.step h.core hexplains⟩
    · exact (congrArg (Egress.Proper · i) hcore).mp hproper
    · dsimp only
      rw [hcore, Egress.run, Egress.run, List.foldl_append]
      rfl

theorem inv_start (tcpMaxFlows tcpConnectTimeoutSec tcpIdleTimeoutSec egressFdBudget : Nat) :
    Inv (Egress.start tcpMaxFlows tcpConnectTimeoutSec tcpIdleTimeoutSec egressFdBudget)
      (start tcpMaxFlows tcpConnectTimeoutSec tcpIdleTimeoutSec egressFdBudget) := by
  have hnone : (List.replicate egressFdBudget (none : Option EgressFdSlot)).reduceOption = [] :=
    List.reduceOption_replicate_none
  have hkeyed : Slots.Keyed EgressFdSlot.fd (List.replicate egressFdBudget none) := by
    rw [Slots.Keyed, hnone]
    exact List.nodup_nil
  refine ⟨⟨[], trivial, rfl⟩, .start _ _ _ _, ?_, hkeyed, List.length_replicate, ?_, rfl⟩
  · intro _ _ _ _ hf
    cases hf
  intro fd slot hslot
  have hmem := ((EgressFds.polled_eq_some hkeyed).1 hslot).1
  rw [start, hnone] at hmem
  cases hmem

theorem Polls.run {core₀ : Egress} {steps : List Step} (h : s.Polls) (hinv : Inv core₀ s)
    (hsane : Runs.Along EgressServer.step Sane s steps) (harmed : ∀ e ∈ steps, ∀ c ∈ e.calls, c.Armed) :
    (s.run steps).Polls := by
  induction steps generalizing s with
  | nil => exact h
  | cons e steps ih =>
    obtain ⟨hfirst, hrest⟩ := List.forall_mem_cons.1 harmed
    have hnext := hinv.step hsane.1
    refine ih ?_ hnext hsane.2 hrest
    rw [EgressServer.step] at hnext ⊢
    cases hi : s.coreStep e with
    | none => exact h
    | some i =>
      rw [hi] at hnext
      exact h.step hinv.served hinv.core (hsane.1.1 i hi).1 hnext.distinct hfirst

/-- A connection of a flow that is in progress, its event, the reset of the stream, and a second
    flow, which is given the socket of the first. -/
def sampleSteps : List Step :=
  [.core (.connOpen 0) [], .core (.streamOpen 3 0) [], .core (.streamOpen 4 0) [],
    .core (.request 3 (Egress.sampleRequest 7 .inProgress false)) [.register 7 false true 0 ⟨true, true⟩],
    .event 0 false true false 2 ⟨[], [], [], .again⟩ false [.register 7 true false 0 ⟨true, true⟩],
    .core (.reset 3) [.unregister 7],
    .core (.request 4 (Egress.sampleRequest 7 .inProgress false)) [.register 7 false true 1 ⟨true, true⟩]]

/-- The core has one socket only. -/
def One (fd : Nat) (s : Egress) : Prop := ∀ id f, s.flows id = some f → f.fd = fd

theorem One.step {fd : Nat} {s : Egress} {e : Egress.Step} (h : One fd s)
    (hnew : ∀ stream a, e = .request stream a → a.fd = some fd) : One fd (s.step e) := by
  intro id f' hf'
  rcases Egress.sockets_step s e with hkept | ⟨stream, a, fd', hrequest, hsocket, -, hflows⟩
  · obtain ⟨f, hf, hfd⟩ := hkept.flows id f' hf'
    exact hfd.trans (h id f hf)
  · rcases hflows id f' hf' with ⟨-, hfd⟩ | ⟨f, hf, hfd⟩
    · exact hfd.trans (Option.some.inj (hsocket.symm.trans (hnew stream a hrequest)))
    · exact hfd.trans (h id f hf)

theorem One.explains {s : Egress} {e : Egress.Step} {c : Call} (h : One c.fd s)
    (hnew : ∀ stream a, e = .request stream a → a.fd = some c.fd)
    (hregisters : (∃ id f, s.flows id = some f) ∨
      (s.nextFlow < (s.step e).nextFlow ∧ ∃ stream a, e = .request stream a))
    (hlast : c.Says (s.step e)) : Explains s e [c] := by
  refine ⟨fun c' hc' _ => ?_, fun fd => ?_⟩
  · obtain rfl := List.mem_singleton.1 hc'
    rcases hregisters with ⟨id, f, hf⟩ | ⟨hlt, stream, a, hrequest⟩
    · exact .inl ⟨id, f, hf, h id f hf⟩
    · exact .inr ⟨hlt, stream, a, hrequest, hnew stream a hrequest⟩
  · rw [Call.last, Call.last]
    dsimp only
    by_cases hfd : c.fd = fd
    · rw [if_pos hfd]
      exact hlast
    · rw [if_neg hfd]
      refine fun flow i => iff_of_false ?_ ?_ <;> rintro ⟨f, hf, heq, -⟩
      · exact hfd ((h.step hnew flow f hf).symm.trans heq)
      · exact hfd ((h flow f hf).symm.trans heq)

/-- A step that is not about the sockets. -/
theorem sane_quiet {s : EgressServer} {i : Egress.Step} (hflows : (s.core.step i).flows = s.core.flows)
    (hproper : s.core.Proper i) (hno : ∀ stream a, i ≠ .request stream a)
    (hevent : ∀ flow r w so now a sync, i ≠ .fdReady flow r w so now a sync) : s.Sane (.core i []) := by
  refine ⟨?_, ?_⟩
  · rintro _ ⟨⟩
    refine ⟨⟨fun _ hc => (List.not_mem_nil hc).elim, fun fd flow j => ?_⟩, fun stream a _ h => absurd h (hno stream a)⟩
    rw [Asks, Asks, hflows]
  · rintro _ _ ⟨⟩
    exact ⟨hproper, hevent⟩

theorem sane_core {s : EgressServer} {i : Egress.Step} {cs : List Call} (hexplains : Explains s.core i cs)
    (hnew : s.core.NewSocket i) (hproper : s.core.Proper i)
    (hevent : ∀ flow r w so now a sync, i ≠ .fdReady flow r w so now a sync) : s.Sane (.core i cs) := by
  refine ⟨?_, ?_⟩
  · rintro _ ⟨⟩
    exact ⟨hexplains, hnew⟩
  · rintro _ _ ⟨⟩
    exact ⟨hproper, hevent⟩

end EgressServer

end Mqvpn.Platform
