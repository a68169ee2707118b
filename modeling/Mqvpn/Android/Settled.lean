import Mqvpn.Android.PathManager
import Mathlib.Data.List.Basic
import Mathlib.Data.List.Nodup
import Mathlib.Data.List.Range

/-!
# Sockets, paths and readers on Android

Whenever no handler is running, the networks with a registered path are to be the active
ones for which a path was added, the library is to have these paths and no others, every
socket is to be the one of its path or closed once, and every path is to have a reader
(`Settled`).

The executor block of `handleAvailable` asks whether the network is active, not whether it
still is: a network that is lost during the bind and has come back is active for another
handler. Its path is then registered twice, or is unregistered by the handler of the loss.
Also, a reader may be started after the handler of the loss has closed the socket. The
handlers come to rest as they should in every run in which a handler finds the network as
it left it (`Fair`, `settled_run`).
-/

namespace Mqvpn

namespace PathManager

open Function

variable {s : PathManager} {i n p fd : Nat} {h h' : Handler}

/-! ## What is to hold at rest -/

/-- The path of the handler is registered, or has been. -/
def Phase.added : Phase → Bool
  | .registered _ _ => true
  | .finished added => added
  | _ => false

/-- The handler `p` was started for the network, and has added a path. -/
def Added (s : PathManager) (network p : Nat) : Prop :=
  ∃ h, s.handlers[p]? = some h ∧ h.network = network ∧ h.phase.added = true

/-- No handler is running. -/
def Idle (s : PathManager) : Prop := ∀ h ∈ s.handlers, h.phase = .finished h.phase.added

instance : Decidable s.Idle := inferInstanceAs (Decidable (∀ h ∈ s.handlers, _))

structure Settled (s : PathManager) : Prop where
  /-- A path is registered for exactly the active networks with a handler that has added one. -/
  registered : ∀ network p, s.pathHandles network = some p ↔ s.activeNetworks network = some p ∧ s.Added network p
  /-- The library has these paths. -/
  library : ∀ p, s.paths p = true ↔ ∃ network, s.pathHandles network = some p
  /-- Two networks have two paths. -/
  single : ∀ network network' p, s.pathHandles network = some p → s.pathHandles network' = some p →
    network = network'
  /-- A socket is recorded for its path and open, or it is not and has been closed once. -/
  sockets : ∀ fd, s.wasBound fd = true →
    ((∃ network, s.pathHandles network = some fd) ∧ s.pathFds fd = some fd ∧ s.closes fd = 0) ∨
      ((∀ p, s.pathFds p ≠ some fd) ∧ s.closes fd = 1)
  readClosed : s.readClosed = false
  readers : ∀ network p, s.pathHandles network = some p → s.readers p = true

/-! ## Steps that find the network as it was left -/

/-- The socket that the handler is about to start a reader on. -/
def Phase.toRead : Phase → Option Nat
  | .registered fd _ => some fd
  | _ => none

/-- A handler registers a path only if the network is active since the handler was started
    and has no path; it removes no network from the active set that has a path; the handler
    of a loss unregisters the path of the network that was lost, and closes no socket that
    is still to get a reader. -/
def FairStep (s : PathManager) (i : Nat) (ok : Bool) (network : Nat) : Phase → Prop
  | .bound _ => ok = true → ∀ g ∈ s.activeNetworks network, g = i ∧ s.pathHandles network = none
  | .unbound => ∀ g ∈ s.activeNetworks network, s.pathHandles network ≠ some g
  | .unregistering ended => ∀ p ∈ s.pathHandles network, p = ended
  | .closing fd => ∀ other ∈ s.handlers, other.phase.toRead ≠ some fd
  | _ => True

/-- Also, no reader of a path ends by itself, and the tunnel is not stopped while a path is
    still to get its reader. -/
def Fair (s : PathManager) : Event → Prop
  | .step i ok => ∀ h ∈ s.handlers[i]?, s.FairStep i ok h.network h.phase
  | .readerEnds handle => s.pathFds handle = none
  | .stop => ∀ h ∈ s.handlers, ∀ fd ∈ h.phase.toRead, s.pathFds fd = none
  | _ => True

instance (i : Nat) (ok : Bool) (network : Nat) (phase : Phase) : Decidable (s.FairStep i ok network phase) :=
  match phase with
  | .bound _ => inferInstanceAs (Decidable (ok = true → ∀ g ∈ s.activeNetworks network, _))
  | .unbound => inferInstanceAs (Decidable (∀ g ∈ s.activeNetworks network, _))
  | .unregistering _ => inferInstanceAs (Decidable (∀ p ∈ s.pathHandles network, _))
  | .closing _ => inferInstanceAs (Decidable (∀ other ∈ s.handlers, _))
  | .binding | .registered _ _ | .refused _ | .stopping _ _ | .finished _ => inferInstanceAs (Decidable True)

instance (e : Event) : Decidable (s.Fair e) :=
  match e with
  | .step i ok => inferInstanceAs (Decidable (∀ h ∈ s.handlers[i]?, s.FairStep i ok h.network h.phase))
  | .readerEnds handle => inferInstanceAs (Decidable (s.pathFds handle = none))
  | .stop => inferInstanceAs (Decidable (∀ h ∈ s.handlers, _))
  | .available _ | .lost _ => inferInstanceAs (Decidable True)

/-! ## The invariant -/

/-- The socket is in the hands of the handler. -/
def Phase.holds (fd : Nat) : Phase → Bool
  | .bound fd' | .refused fd' | .closing fd' => fd' == fd
  | .stopping _ fd' => fd' == some fd
  | _ => false

/-- The sockets and paths of a handler have its name. -/
def Phase.Own (i : Nat) : Phase → Prop
  | .bound fd | .refused fd => fd = i
  | .registered fd handle => fd = i ∧ handle = i
  | _ => True

/-- The number of times that the socket is recorded for its path. -/
def recorded (s : PathManager) (fd : Nat) : Nat := if s.pathFds fd = some fd then 1 else 0

/-- Where the sockets are, and who reads from them. -/
structure Sockets (s : PathManager) : Prop where
  /-- A socket is in one place: in the hands of a handler, in `pathFds`, or closed. -/
  weight : ∀ fd, s.handlers.countP (·.phase.holds fd) + s.recorded fd + s.closes fd =
    (s.wasBound fd).toNat
  own : ∀ (i : Nat) (h : Handler), s.handlers[i]? = some h → h.phase.Own i
  wasBound : ∀ i : Nat, s.wasBound i = true → ∃ h, s.handlers[i]? = some h ∧ h.phase ≠ .binding
  reading : ∀ (p : Nat) (h : Handler), s.handlers[p]? = some h → h.phase = .finished true → s.pathFds p ≠ none →
    s.readers p = true
  awaited : ∀ (j : Nat) (h : Handler) fd, s.handlers[j]? = some h → h.phase.toRead = some fd → s.closes fd = 0
  readClosed : s.readClosed = false

/-- What the tables of networks and paths have. -/
structure Tables (s : PathManager) : Prop where
  named : ∀ p fd, s.pathFds p = some fd → fd = p
  listed : ∀ n p, s.pathHandles n = some p → s.pathFds p = some p ∧ s.Added n p
  covered : ∀ p fd, s.pathFds p = some fd → ∃ n, s.pathHandles n = some p
  library : ∀ p, s.paths p = true ↔ s.pathFds p ≠ none
  /-- A path of a network that is not active is still to be unregistered. -/
  owed : ∀ n p, s.pathHandles n = some p → s.activeNetworks n = some p ∨
    ∃ j : Nat, s.handlers[j]? = some { network := n, phase := .unregistering p }
  /-- The path added for an active network is registered. -/
  kept : ∀ n p : Nat, s.activeNetworks n = some p →
    ∃ h, s.handlers[p]? = some h ∧ h.network = n ∧ (h.phase.added = true → s.pathHandles n = some p)
  ended : ∀ j n p : Nat, s.handlers[j]? = some { network := n, phase := .unregistering p } →
    p < s.handlers.length ∧ s.activeNetworks n ≠ some p
  gone : ∀ (j : Nat) (h : Handler) p fd, s.handlers[j]? = some h → h.phase = .stopping p fd →
    s.pathFds p = none ∧ ∃ n, s.Added n p

structure Sound (s : PathManager) : Prop extends Sockets s, Tables s

theorem Sound.start : Sound {} where
  weight fd := rfl
  named p fd hp := by cases hp
  own i h hh := by cases hh
  wasBound i hi := by cases hi
  listed n p hp := by cases hp
  covered p fd hp := by cases hp
  library p := by simp
  owed n p hp := by cases hp
  kept n p hp := by cases hp
  ended j n p hj := by cases hj
  gone j h p fd hj := by cases hj
  reading p h hp := by cases hp
  awaited j h fd hj := by cases hj
  readClosed := rfl

/-- At rest, the invariant gives what is to hold. -/
theorem Sound.settled (h : s.Sound) (hidle : s.Idle) : s.Settled := by
  have hfin : ∀ (j : Nat) (k : Handler), s.handlers[j]? = some k → k.phase = .finished k.phase.added :=
    fun j k hk => hidle k (List.mem_of_getElem? hk)
  have hactive : ∀ n p, s.pathHandles n = some p → s.activeNetworks n = some p := by
    intro n p hp
    rcases h.owed n p hp with hact | ⟨j, hj⟩
    · exact hact
    · cases hfin j _ hj
  refine ⟨fun n p => ⟨fun hp => ⟨hactive n p hp, (h.listed n p hp).2⟩, ?_⟩, fun p => ?_, fun n n' p hp hp' => ?_,
    fun fd hfd => ?_, h.readClosed, fun n p hp => ?_⟩
  · rintro ⟨hact, k, hk, -, hadded⟩
    obtain ⟨k', hk', -, hkept⟩ := h.kept n p hact
    cases hk.symm.trans hk'
    exact hkept hadded
  · refine (h.library p).trans ⟨fun hp => ?_, ?_⟩
    · obtain ⟨fd, hfd⟩ := Option.ne_none_iff_exists'.1 hp
      exact h.covered p fd hfd
    · rintro ⟨n, hp⟩ hnone
      cases hnone.symm.trans (h.listed n p hp).1
  · obtain ⟨-, k, hk, hn, -⟩ := h.listed n p hp
    obtain ⟨-, k', hk', hn', -⟩ := h.listed n' p hp'
    cases hk.symm.trans hk'
    exact hn.symm.trans hn'
  · -- no handler holds the socket any more
    have hcount : s.handlers.countP (·.phase.holds fd) = 0 := by
      refine List.countP_eq_zero.2 fun k hk => ?_
      rw [hidle k hk]
      exact Bool.false_ne_true
    have hweight := h.weight fd
    rw [hcount, hfd, Nat.zero_add, recorded, Bool.toNat_true] at hweight
    split_ifs at hweight with hrec
    · exact .inl ⟨h.covered fd fd hrec, hrec, by omega⟩
    · refine .inr ⟨fun p hp => hrec ?_, by omega⟩
      cases h.named p fd hp
      exact hp
  · obtain ⟨hfd, k, hk, -, hadded⟩ := h.listed n p hp
    have hphase := hfin p k hk
    rw [hadded] at hphase
    exact h.reading p k hk hphase (by rw [hfd]; exact Option.some_ne_none p)

/-! ## A handler moves on -/

/-- The handler goes from one phase to another: what becomes of its socket, and of the
    readers. -/
structure Moved (s s' : PathManager) (i n : Nat) (ph ph' : Phase) : Prop where
  before : s.handlers[i]? = some { network := n, phase := ph }
  handlers : s'.handlers = s.handlers.set i { network := n, phase := ph' } := by rfl
  own : ph'.Own i := by trivial
  added : ph.added = true → ph'.added = true := by exact id
  notBinding : ph' ≠ .binding := by simp
  notUnregistering : ∀ p, ph' ≠ .unregistering p := by simp
  wasBound : ∀ j, s'.wasBound j = true → s.wasBound j = true ∨ j = i := by exact fun _ => .inl
  weight : ∀ fd, (ph'.holds fd).toNat + s'.recorded fd + s'.closes fd + (s.wasBound fd).toNat =
    (ph.holds fd).toNat + s.recorded fd + s.closes fd + (s'.wasBound fd).toNat := by
    exact fun _ => rfl
  readers : ∀ p, p ≠ i → s'.pathFds p ≠ none → s.pathFds p ≠ none ∧ (s.readers p = true → s'.readers p = true) := by
    exact fun _ _ h => ⟨h, id⟩
  reading : ph' = .finished true → s'.readers i = true := by simp
  toRead : ∀ fd, ph'.toRead = some fd → s'.closes fd = 0 := by simp [Phase.toRead]
  awaited : ∀ (j : Nat) (k : Handler) fd, j ≠ i → s.handlers[j]? = some k → k.phase.toRead = some fd →
    s'.closes fd = s.closes fd := by exact fun _ _ _ _ _ _ => rfl
  readClosed : s.readClosed = false → s'.readClosed = false := by exact id

section Moved

variable {s' : PathManager} {ph ph' : Phase}

theorem Moved.length_eq (hm : Moved s s' i n ph ph') : s'.handlers.length = s.handlers.length := by
  rw [hm.handlers, List.length_set]

theorem Moved.getElem?_eq_some (hm : Moved s s' i n ph ph') (j : Nat) (k : Handler) : s'.handlers[j]? = some k ↔
    (j = i ∧ k = { network := n, phase := ph' }) ∨ (j ≠ i ∧ s.handlers[j]? = some k) := by
  have hlt := (List.getElem?_eq_some_iff.1 hm.before).1
  rw [hm.handlers, List.getElem?_set]
  grind

theorem Moved.countP (hm : Moved s s' i n ph ph') (fd : Nat) :
    s'.handlers.countP (·.phase.holds fd) + (ph.holds fd).toNat =
      s.handlers.countP (·.phase.holds fd) + (ph'.holds fd).toNat := by
  obtain ⟨hlt, heq⟩ := List.getElem?_eq_some_iff.1 hm.before
  have hle : (ph.holds fd).toNat ≤ s.handlers.countP (·.phase.holds fd) := by
    cases hholds : ph.holds fd
    · exact Nat.zero_le _
    · exact List.countP_pos_iff.2 ⟨_, List.mem_of_getElem? hm.before, hholds⟩
  rw [hm.handlers, List.countP_set hlt, heq]
  dsimp only
  cases hph : ph.holds fd <;> cases ph'.holds fd <;>
    simp only [hph, Bool.toNat_true, Bool.toNat_false, Bool.false_eq_true, if_true, if_false] at hle ⊢ <;> omega

/-- A handler that has added its path has still added it after the move. -/
theorem Moved.hasAdded (hm : Moved s s' i n ph ph') {n' p : Nat} (h : s.Added n' p) : s'.Added n' p := by
  obtain ⟨k, hk, hn, ha⟩ := h
  by_cases hp : p = i
  · subst hp
    cases hm.before.symm.trans hk
    exact ⟨_, (hm.getElem?_eq_some p _).2 (.inl ⟨rfl, rfl⟩), hn, hm.added ha⟩
  · exact ⟨k, (hm.getElem?_eq_some p k).2 (.inr ⟨hp, hk⟩), hn, ha⟩

theorem Sockets.moved (hs : s.Sockets) (hm : Moved s s' i n ph ph') : s'.Sockets := by
  have hget := hm.getElem?_eq_some
  constructor
  case weight =>
    intro fd
    have hcount := hm.countP fd
    have hweight := hm.weight fd
    have hsum := hs.weight fd
    omega
  case own =>
    intro j k hk
    rcases (hget j k).1 hk with ⟨rfl, rfl⟩ | ⟨-, hk⟩
    · exact hm.own
    · exact hs.own j k hk
  case wasBound =>
    intro j hj
    by_cases hji : j = i
    · exact ⟨_, (hget j _).2 (.inl ⟨hji, rfl⟩), hm.notBinding⟩
    · rcases hm.wasBound j hj with hj | hj
      · obtain ⟨k, hk, hne⟩ := hs.wasBound j hj
        exact ⟨k, (hget j k).2 (.inr ⟨hji, hk⟩), hne⟩
      · exact absurd hj hji
  case reading =>
    intro p k hk hphase hfd
    rcases (hget p k).1 hk with ⟨rfl, rfl⟩ | ⟨hne, hk⟩
    · exact hm.reading hphase
    · obtain ⟨hfd, hread⟩ := hm.readers p hne hfd
      exact hread (hs.reading p k hk hphase hfd)
  case awaited =>
    intro j k fd hk hread
    rcases (hget j k).1 hk with ⟨-, rfl⟩ | ⟨hne, hk⟩
    · exact hm.toRead fd hread
    · rw [hm.awaited j k fd hne hk hread]
      exact hs.awaited j k fd hk hread
  case readClosed => exact hm.readClosed hs.readClosed

/-- A path that is still to be unregistered is so after the move, unless the handler of
    that loss has moved. -/
theorem Moved.pending (hm : Moved s s' i n ph ph') {n' p j : Nat} (hne : n' = n → ph ≠ .unregistering p)
    (hj : s.handlers[j]? = some { network := n', phase := .unregistering p }) :
    ∃ j : Nat, s'.handlers[j]? = some { network := n', phase := .unregistering p } := by
  refine ⟨j, (hm.getElem?_eq_some j _).2 (.inr ⟨?_, hj⟩)⟩
  rintro rfl
  cases hm.before.symm.trans hj
  exact hne rfl rfl

/-- The losses that are pending after the move were so before. -/
theorem Tables.ended_of_moved (ht : s.Tables) (hm : Moved s s' i n ph ph')
    (hactive : s'.activeNetworks = s.activeNetworks) {j n' p : Nat}
    (hj : s'.handlers[j]? = some { network := n', phase := .unregistering p }) :
    p < s'.handlers.length ∧ s'.activeNetworks n' ≠ some p := by
  rw [hm.length_eq, hactive]
  rcases (hm.getElem?_eq_some j _).1 hj with ⟨-, heq⟩ | ⟨-, hj⟩
  · cases heq
    exact absurd rfl (hm.notUnregistering p)
  · exact ht.ended j n' p hj

/-- A handler moves on, and the tables stay. -/
structure Quiet (s s' : PathManager) (i n : Nat) (ph ph' : Phase) : Prop extends Moved s s' i n ph ph' where
  activeNetworks : s'.activeNetworks = s.activeNetworks := by rfl
  pathHandles : s'.pathHandles = s.pathHandles := by rfl
  pathFds : s'.pathFds = s.pathFds := by rfl
  paths : s'.paths = s.paths := by rfl
  notAdded : ph'.added = true → ph.added = true := by exact id
  /-- A loss that is dealt with leaves no path. -/
  unregistering : ∀ p, ph = .unregistering p → s.pathHandles n ≠ some p := by simp
  notStopping : ∀ p fd, ph' ≠ .stopping p fd := by simp

theorem Tables.quiet (ht : s.Tables) (hq : Quiet s s' i n ph ph') : s'.Tables := by
  have hget := hq.getElem?_eq_some
  constructor
  case named => rw [hq.pathFds]; exact ht.named
  case listed =>
    intro n' p hp
    rw [hq.pathHandles] at hp
    rw [hq.pathFds]
    exact ⟨(ht.listed n' p hp).1, hq.hasAdded (ht.listed n' p hp).2⟩
  case covered => rw [hq.pathFds, hq.pathHandles]; exact ht.covered
  case library => rw [hq.pathFds, hq.paths]; exact ht.library
  case owed =>
    intro n' p hp
    rw [hq.pathHandles] at hp
    rw [hq.activeNetworks]
    rcases ht.owed n' p hp with hact | ⟨j, hj⟩
    · exact .inl hact
    · refine .inr (hq.pending ?_ hj)
      rintro rfl hph
      exact hq.unregistering p hph hp
  case kept =>
    intro n' p hp
    rw [hq.activeNetworks] at hp
    rw [hq.pathHandles]
    obtain ⟨k, hk, hn, hkept⟩ := ht.kept n' p hp
    by_cases hpi : p = i
    · subst hpi
      cases hq.before.symm.trans hk
      exact ⟨_, (hget p _).2 (.inl ⟨rfl, rfl⟩), hn, fun ha => hkept (hq.notAdded ha)⟩
    · exact ⟨k, (hget p k).2 (.inr ⟨hpi, hk⟩), hn, hkept⟩
  case ended => exact fun j n' p => ht.ended_of_moved hq.toMoved hq.activeNetworks
  case gone =>
    intro j k p fd hk hphase
    rw [hq.pathFds]
    rcases (hget j k).1 hk with ⟨-, rfl⟩ | ⟨-, hk⟩
    · exact absurd hphase (hq.notStopping p fd)
    · obtain ⟨hnone, n', hn'⟩ := ht.gone j k p fd hk hphase
      exact ⟨hnone, n', hq.hasAdded hn'⟩

theorem Sound.quiet (hs : s.Sound) (ph ph' : Phase) (hq : Quiet s s' i n ph ph') : s'.Sound :=
  ⟨hs.toSockets.moved hq.toMoved, hs.toTables.quiet hq⟩

end Moved

/-! ## The steps of the handlers -/

theorem Sound.bindUdp (hs : s.Sound) (hi : s.handlers[i]? = some { network := n, phase := .binding }) (ok : Bool) :
    (s.bindUdp i n ok).Sound := by
  rw [PathManager.bindUdp]
  split
  · have hfresh : s.wasBound i = false := by
      refine Bool.eq_false_iff.2 fun hbound => ?_
      obtain ⟨k, hk, hne⟩ := hs.wasBound i hbound
      cases hi.symm.trans hk
      exact hne rfl
    refine hs.quiet .binding (.bound i)
      { before := hi, own := rfl, wasBound := fun j hj => ?_, weight := fun fd => ?_ }
    · by_cases hji : j = i
      · exact .inr hji
      · exact .inl ((update_of_ne hji _ _).symm.trans hj)
    · change _ + s.recorded fd + s.closes fd + _ = _ + s.recorded fd + s.closes fd + _
      by_cases hfd : i = fd
      · subst hfd
        simp [goto, Phase.holds, hfresh]
        omega
      · simp [goto, Phase.holds, hfd, update_of_ne (Ne.symm hfd)]
  · exact hs.quiet .binding .unbound { before := hi }

theorem Sound.removeNetwork (hs : s.Sound) (hi : s.handlers[i]? = some { network := n, phase := .unbound })
    (hfair : ∀ g ∈ s.activeNetworks n, s.pathHandles n ≠ some g) :
    ((s.removeNetwork n).goto i n (.finished false)).Sound := by
  -- first the network goes, then the handler ends
  have hremoved : (s.removeNetwork n).Sound := by
    refine { hs with owed := fun n' p hp => ?_, kept := fun n' p hp => ?_, ended := fun j n' p hj => ?_ }
    · rcases hs.owed n' p hp with hact | hj
      · refine .inl ?_
        have hne : n' ≠ n := by
          rintro rfl
          exact hfair p hact hp
        exact (update_of_ne hne _ _).trans hact
      · exact .inr hj
    · by_cases hne : n' = n
      · subst hne
        cases (update_self _ _ _).symm.trans hp
      · exact hs.kept n' p ((update_of_ne hne _ _).symm.trans hp)
    · refine ⟨(hs.ended j n' p hj).1, fun hp => ?_⟩
      by_cases hne : n' = n
      · subst hne
        cases (update_self _ _ _).symm.trans hp
      · exact (hs.ended j n' p hj).2 ((update_of_ne hne _ _).symm.trans hp)
  exact hremoved.quiet .unbound (.finished false) { before := hi }

/-- A handler that has not added a path has none in the tables. -/
theorem Tables.pathFds_eq_none (ht : s.Tables) (hi : s.handlers[i]? = some h) (hadded : h.phase.added = false) :
    s.pathFds i = none := by
  refine Option.eq_none_iff_forall_ne_some.2 fun fd hfd => ?_
  obtain ⟨n, hn⟩ := ht.covered i fd hfd
  obtain ⟨-, k, hk, -, ha⟩ := ht.listed n i hn
  cases hi.symm.trans hk
  cases hadded.symm.trans ha

/-- A socket in the hands of a handler is not closed, and not recorded. -/
theorem Sockets.closes_eq_zero (hs : s.Sockets) (hi : s.handlers[i]? = some h) (hholds : h.phase.holds fd = true) :
    s.closes fd = 0 := by
  have hcount : 0 < s.handlers.countP (·.phase.holds fd) :=
    List.countP_pos_iff.2 ⟨h, List.mem_of_getElem? hi, hholds⟩
  have hsum := hs.weight fd
  have hle := Bool.toNat_le (s.wasBound fd)
  omega

/-- The tables after a path is registered: the network had none. -/
theorem Tables.register {s' : PathManager} (ht : s.Tables) (hm : Moved s s' i n (.bound i) (.registered i i))
    (hact : s.activeNetworks n = some i) (hfree : s.pathHandles n = none)
    (hactive : s'.activeNetworks = s.activeNetworks) (hhandles : s'.pathHandles = update s.pathHandles n (some i))
    (hfds : s'.pathFds = update s.pathFds i (some i)) (hpaths : s'.paths = update s.paths i true) : s'.Tables := by
  have hnone := ht.pathFds_eq_none hm.before rfl
  have hget := hm.getElem?_eq_some
  -- a path that was in the tables is not the new one
  have hold : ∀ n' p, s.pathHandles n' = some p → n' ≠ n ∧ p ≠ i := by
    intro n' p hp
    constructor
    · rintro rfl
      cases hfree.symm.trans hp
    · rintro rfl
      cases hnone.symm.trans (ht.listed n' p hp).1
  constructor
  case named =>
    intro p fd hp
    rw [hfds, update_apply] at hp
    split_ifs at hp with hpi
    · cases hp
      exact hpi.symm
    · exact ht.named p fd hp
  case listed =>
    intro n' p hp
    rw [hhandles, update_apply] at hp
    split_ifs at hp with hn
    · cases hp
      rw [hfds, update_self]
      exact ⟨rfl, _, (hget i _).2 (.inl ⟨rfl, rfl⟩), hn.symm, rfl⟩
    · rw [hfds, update_of_ne (hold n' p hp).2]
      exact ⟨(ht.listed n' p hp).1, hm.hasAdded (ht.listed n' p hp).2⟩
  case covered =>
    intro p fd hp
    rw [hfds, update_apply] at hp
    split_ifs at hp with hpi
    · exact ⟨n, by rw [hhandles, update_self, hpi]⟩
    · obtain ⟨n', hn'⟩ := ht.covered p fd hp
      exact ⟨n', by rw [hhandles, update_of_ne (hold n' p hn').1, hn']⟩
  case library =>
    intro p
    rw [hpaths, hfds, update_apply, update_apply]
    split_ifs
    · exact iff_of_true rfl (Option.some_ne_none i)
    · exact ht.library p
  case owed =>
    intro n' p hp
    rw [hactive]
    rw [hhandles, update_apply] at hp
    split_ifs at hp with hn
    · cases hp
      exact .inl (hn ▸ hact)
    · exact (ht.owed n' p hp).imp id fun ⟨j, hj⟩ => hm.pending (by simp) hj
  case kept =>
    intro n' p hp
    rw [hactive] at hp
    obtain ⟨k, hk, hn, hkept⟩ := ht.kept n' p hp
    by_cases hpi : p = i
    · subst hpi
      cases hm.before.symm.trans hk
      cases hn
      exact ⟨_, (hget p _).2 (.inl ⟨rfl, rfl⟩), rfl, fun _ => by rw [hhandles, update_self]⟩
    · refine ⟨k, (hget p k).2 (.inr ⟨hpi, hk⟩), hn, fun ha => ?_⟩
      rw [hhandles, update_of_ne (hold n' p (hkept ha)).1]
      exact hkept ha
  case ended => exact fun j n' p => ht.ended_of_moved hm hactive
  case gone =>
    intro j k p fd hk hphase
    rcases (hget j k).1 hk with ⟨-, rfl⟩ | ⟨-, hk⟩
    · cases hphase
    · obtain ⟨hpnone, n', k', hk', hn', ha⟩ := ht.gone j k p fd hk hphase
      have hpi : p ≠ i := by
        rintro rfl
        cases hm.before.symm.trans hk'
        cases ha
      rw [hfds, update_of_ne hpi]
      exact ⟨hpnone, n', hm.hasAdded ⟨k', hk', hn', ha⟩⟩

theorem Sound.register (hs : s.Sound) (hi : s.handlers[i]? = some { network := n, phase := .bound fd }) (ok : Bool)
    (hfair : ok = true → ∀ g ∈ s.activeNetworks n, g = i ∧ s.pathHandles n = none) :
    (s.register i n fd ok).Sound := by
  have hrefuse : (s.goto i n (.refused fd)).Sound :=
    hs.quiet (.bound fd) (.refused fd) { before := hi, own := hs.own i _ hi }
  rw [PathManager.register]
  split
  · exact hrefuse
  · rename_i g hact
    split
    · rename_i hok
      have hfd : fd = i := hs.own i _ hi
      subst fd
      obtain ⟨rfl, hfree⟩ := hfair hok g hact
      have hnone := hs.pathFds_eq_none hi rfl
      have hm : Moved s (goto { s with
          paths := update s.paths g true
          pathHandles := update s.pathHandles n (some g)
          pathFds := update s.pathFds g (some g)
          connected := true } g n (.registered g g)) g n (.bound g) (.registered g g) := by
        refine
          { before := hi
            own := ⟨rfl, rfl⟩
            added := fun _ => rfl
            weight := fun fd => ?_
            readers := fun p hp hfd => ⟨?_, id⟩
            toRead := fun fd hfd => ?_ }
        · -- the socket goes from the handler to the table
          change _ + recorded _ fd + s.closes fd + _ = _ + _ + s.closes fd + _
          by_cases hfd : fd = g
          · subst hfd
            simp [recorded, goto, Phase.holds, hnone]
          · simp [recorded, goto, Phase.holds, Ne.symm hfd, update_of_ne hfd]
        · exact (update_of_ne hp (some g) s.pathFds) ▸ hfd
        · cases hfd
          exact hs.closes_eq_zero hi (by simp [Phase.holds])
      exact ⟨hs.toSockets.moved hm, hs.toTables.register hm hact hfree rfl rfl rfl rfl⟩
    · exact hrefuse

theorem Sound.startReader {handle : Nat} (hs : s.Sound)
    (hi : s.handlers[i]? = some { network := n, phase := .registered fd handle }) :
    ((s.startReader fd handle).goto i n (.finished true)).Sound := by
  have hopen : s.closes fd = 0 := hs.awaited i _ fd hi rfl
  obtain ⟨rfl, rfl⟩ : fd = i ∧ handle = i := hs.own i _ hi
  refine hs.quiet (.registered handle handle) (.finished true)
    { before := hi
      readers := fun p hp hfd => ⟨hfd, fun hread => ?_⟩
      reading := fun _ => update_self _ _ _
      readClosed := fun hread => ?_ }
  · exact (update_of_ne hp _ _).trans hread
  · simp [PathManager.startReader, goto, hread, hopen]

theorem Sound.closeFdSafe {ph : Phase} (hs : s.Sound) (hi : s.handlers[i]? = some { network := n, phase := ph })
    (hph : ph = .refused fd ∨ ph = .closing fd)
    (hfair : ∀ (j : Nat) (k : Handler), j ≠ i → s.handlers[j]? = some k → k.phase.toRead ≠ some fd) :
    ((s.closeFdSafe fd).goto i n (.finished false)).Sound := by
  have hholds : ∀ fd', ph.holds fd' = (fd == fd') := by
    rintro fd'
    rcases hph with rfl | rfl <;> rfl
  refine hs.quiet ph (.finished false)
    { before := hi
      added := fun ha => ?_
      weight := fun fd' => ?_
      awaited := fun j k fd' hj hk hread => ?_
      notAdded := fun ha => by cases ha
      unregistering := fun p hp => ?_ }
  · rcases hph with rfl | rfl <;> cases ha
  · rw [hholds]
    change _ + s.recorded fd' + update s.closes fd (s.closes fd + 1) fd' + _ = _
    by_cases hfd : fd = fd'
    · subst hfd
      simp [Phase.holds, PathManager.closeFdSafe, goto]
      omega
    · simp [Phase.holds, PathManager.closeFdSafe, goto, hfd, update_of_ne (Ne.symm hfd)]
  · have hne : fd' ≠ fd := by
      rintro rfl
      exact hfair j k hj hk hread
    exact update_of_ne hne _ _
  · rcases hph with rfl | rfl <;> cases hp

/-- The tables after a path is unregistered: it is the one whose network was lost. -/
theorem Tables.unregister {s' : PathManager} (ht : s.Tables)
    (hm : Moved s s' i n (.unregistering p) (.stopping p (some p))) (hp : s.pathHandles n = some p)
    (hactive : s'.activeNetworks = s.activeNetworks) (hhandles : s'.pathHandles = update s.pathHandles n none)
    (hfds : s'.pathFds = update s.pathFds p none) (hpaths : s'.paths = update s.paths p false) : s'.Tables := by
  have hget := hm.getElem?_eq_some
  have hnot := (ht.ended i n p hm.before).2
  -- what is left in the tables are other paths of other networks
  have hleft : ∀ n' q, s'.pathHandles n' = some q → n' ≠ n ∧ q ≠ p ∧ s.pathHandles n' = some q := by
    intro n' q hq
    rw [hhandles, update_apply] at hq
    split_ifs at hq with hn
    refine ⟨hn, ?_, hq⟩
    rintro rfl
    obtain ⟨-, k, hk, hkn, -⟩ := ht.listed n q hp
    obtain ⟨-, k', hk', hkn', -⟩ := ht.listed n' q hq
    cases hk.symm.trans hk'
    exact hn (hkn'.symm.trans hkn)
  constructor
  case named =>
    intro q fd hq
    rw [hfds, update_apply] at hq
    split_ifs at hq
    exact ht.named q fd hq
  case listed =>
    intro n' q hq
    obtain ⟨-, hqp, hq⟩ := hleft n' q hq
    rw [hfds, update_of_ne hqp]
    exact ⟨(ht.listed n' q hq).1, hm.hasAdded (ht.listed n' q hq).2⟩
  case covered =>
    intro q fd hq
    rw [hfds, update_apply] at hq
    split_ifs at hq with hqp
    obtain ⟨n', hn'⟩ := ht.covered q fd hq
    have hn : n' ≠ n := by
      rintro rfl
      exact hqp (Option.some.inj (hn'.symm.trans hp))
    exact ⟨n', by rw [hhandles, update_of_ne hn, hn']⟩
  case library =>
    intro q
    rw [hpaths, hfds, update_apply, update_apply]
    split_ifs
    · exact iff_of_false id fun h => h rfl
    · exact ht.library q
  case owed =>
    intro n' q hq
    obtain ⟨hn, -, hq⟩ := hleft n' q hq
    rw [hactive]
    exact (ht.owed n' q hq).imp id fun ⟨j, hj⟩ => hm.pending (fun heq => absurd heq hn) hj
  case kept =>
    intro n' q hq
    rw [hactive] at hq
    obtain ⟨k, hk, hn, hkept⟩ := ht.kept n' q hq
    by_cases hqi : q = i
    · subst hqi
      cases hm.before.symm.trans hk
      exact ⟨_, (hget q _).2 (.inl ⟨rfl, rfl⟩), hn, fun ha => by cases ha⟩
    · refine ⟨k, (hget q k).2 (.inr ⟨hqi, hk⟩), hn, fun ha => ?_⟩
      have hne : n' ≠ n := by
        rintro rfl
        exact hnot (hp.symm.trans (hkept ha) ▸ hq)
      rw [hhandles, update_of_ne hne]
      exact hkept ha
  case ended => exact fun j n' q => ht.ended_of_moved hm hactive
  case gone =>
    intro j k q fd hk hphase
    rw [hfds, update_apply]
    rcases (hget j k).1 hk with ⟨-, rfl⟩ | ⟨-, hk⟩
    · cases hphase
      exact ⟨if_pos rfl, n, hm.hasAdded (ht.listed n p hp).2⟩
    · obtain ⟨hnone, n', hn'⟩ := ht.gone j k q fd hk hphase
      exact ⟨by rw [hnone, ite_self], n', hm.hasAdded hn'⟩

theorem Sound.unregister {ended : Nat} (hs : s.Sound)
    (hi : s.handlers[i]? = some { network := n, phase := .unregistering ended })
    (hfair : ∀ p ∈ s.pathHandles n, p = ended) : (s.unregister i n).Sound := by
  rw [PathManager.unregister]
  split
  · rename_i hnone
    exact hs.quiet (.unregistering ended) (.finished false)
      { before := hi, unregistering := fun p _ hp => by cases hnone.symm.trans hp }
  · rename_i p hp
    obtain rfl := hfair p hp
    have hfd := (hs.listed n p hp).1
    rw [hfd]
    have hm : Moved s (goto { s with
        pathHandles := update s.pathHandles n none
        pathFds := update s.pathFds p none
        paths := update s.paths p false } i n (.stopping p (some p))) i n (.unregistering p)
        (.stopping p (some p)) := by
      refine { before := hi, weight := fun fd => ?_, readers := fun q _ hq => ⟨?_, id⟩ }
      · -- the socket goes from the table to the handler
        change _ + recorded _ fd + s.closes fd + _ = _ + _ + s.closes fd + _
        by_cases hfdp : fd = p
        · subst hfdp
          simp [recorded, goto, Phase.holds, hfd]
        · simp [recorded, goto, Phase.holds, Ne.symm hfdp, update_of_ne hfdp]
      · change update s.pathFds p none q ≠ none at hq
        rw [update_apply] at hq
        split_ifs at hq
        · exact absurd rfl hq
        · exact hq
    exact ⟨hs.toSockets.moved hm, hs.toTables.unregister hm hp rfl rfl rfl rfl⟩

theorem Sound.stopReader {handle : Nat} {fd : Option Nat} (hs : s.Sound)
    (hi : s.handlers[i]? = some { network := n, phase := .stopping handle fd }) :
    ((s.stopReader handle).goto i n (afterStop fd)).Sound := by
  have hnone : s.pathFds handle = none := (hs.gone i _ handle fd hi rfl).1
  have hreaders : ∀ p, p ≠ i → s.pathFds p ≠ none →
      s.pathFds p ≠ none ∧ (s.readers p = true → update s.readers handle false p = true) := by
    refine fun p _ hp => ⟨hp, fun hread => ?_⟩
    have hne : p ≠ handle := by
      rintro rfl
      exact hp hnone
    exact (update_of_ne hne _ _).trans hread
  cases fd with
  | none =>
    exact hs.quiet (.stopping handle none) (.finished false) { before := hi, readers := hreaders }
  | some fd =>
    exact hs.quiet (.stopping handle (some fd)) (.closing fd) { before := hi, readers := hreaders }

/-! ## The monitor and the service -/

theorem getElem?_launch (s : PathManager) (n : Nat) (ph : Phase) (j : Nat) (k : Handler) :
    (s.launch n ph).handlers[j]? = some k ↔
      s.handlers[j]? = some k ∨ (j = s.handlers.length ∧ k = { network := n, phase := ph }) := by
  rw [launch, List.getElem?_append, List.getElem?_singleton]
  grind

theorem Added.launch {n' p : Nat} {ph : Phase} (h : s.Added n' p) : (s.launch n ph).Added n' p := by
  obtain ⟨k, hk, hn, ha⟩ := h
  exact ⟨k, (getElem?_launch s n ph p k).2 (.inl hk), hn, ha⟩

/-- A new handler has no socket, whatever becomes of the active networks. -/
theorem Sockets.launch (hs : s.Sockets) (active : Nat → Option Nat) {ph : Phase}
    (hph : ph = .binding ∨ ∃ ended, ph = .unregistering ended) :
    ({ s with activeNetworks := active }.launch n ph).Sockets := by
  have hget := getElem?_launch { s with activeNetworks := active } n ph
  constructor
  case weight =>
    intro fd
    have hholds : ph.holds fd = false := by rcases hph with rfl | ⟨ended, rfl⟩ <;> rfl
    have hsum := hs.weight fd
    change (s.handlers ++ [_]).countP _ + s.recorded fd + s.closes fd = (s.wasBound fd).toNat
    rw [List.countP_append, List.countP_singleton, hholds, ← hsum]
    rfl
  case own =>
    intro j k hk
    rcases (hget j k).1 hk with hk | ⟨-, rfl⟩
    · exact hs.own j k hk
    · rcases hph with rfl | ⟨ended, rfl⟩ <;> trivial
  case wasBound =>
    intro j hj
    obtain ⟨k, hk, hne⟩ := hs.wasBound j hj
    exact ⟨k, (hget j k).2 (.inl hk), hne⟩
  case reading =>
    intro p k hk hphase hfd
    rcases (hget p k).1 hk with hk | ⟨-, rfl⟩
    · exact hs.reading p k hk hphase hfd
    · rcases hph with rfl | ⟨ended, rfl⟩ <;> cases hphase
  case awaited =>
    intro j k fd hk hread
    rcases (hget j k).1 hk with hk | ⟨-, rfl⟩
    · exact hs.awaited j k fd hk hread
    · rcases hph with rfl | ⟨ended, rfl⟩ <;> cases hread
  case readClosed => exact hs.readClosed

/-- The rules on the tables that a new handler leaves alone. -/
theorem Tables.launch (ht : s.Tables) (active : Nat → Option Nat) {ph : Phase}
    (hph : ph = .binding ∨ ∃ ended, ph = .unregistering ended)
    (howed : ∀ n' p, s.pathHandles n' = some p → s.activeNetworks n' = some p → active n' = some p ∨
      ∃ j : Nat, ({ s with activeNetworks := active }.launch n ph).handlers[j]? =
        some { network := n', phase := .unregistering p })
    (hkept : ∀ n' p, active n' = some p → s.activeNetworks n' = some p ∨
      (n' = n ∧ p = s.handlers.length ∧ ph = .binding))
    (hended : ∀ p, ph = .unregistering p → p < s.handlers.length ∧ active n ≠ some p) :
    ({ s with activeNetworks := active }.launch n ph).Tables := by
  have hget := getElem?_launch { s with activeNetworks := active } n ph
  have hlen : ({ s with activeNetworks := active }.launch n ph).handlers.length = s.handlers.length + 1 :=
    List.length_append
  constructor
  case named => exact ht.named
  case listed =>
    intro n' p hp
    exact ⟨(ht.listed n' p hp).1, Added.launch (s := { s with activeNetworks := active }) (ht.listed n' p hp).2⟩
  case covered => exact ht.covered
  case library => exact ht.library
  case owed =>
    intro n' p hp
    rcases ht.owed n' p hp with hact | ⟨j, hj⟩
    · exact howed n' p hp hact
    · exact .inr ⟨j, (hget j _).2 (.inl hj)⟩
  case kept =>
    intro n' p hp
    rcases hkept n' p hp with hact | ⟨rfl, rfl, rfl⟩
    · obtain ⟨k, hk, hn, hkept⟩ := ht.kept n' p hact
      exact ⟨k, (hget p k).2 (.inl hk), hn, hkept⟩
    · exact ⟨_, (hget _ _).2 (.inr ⟨rfl, rfl⟩), rfl, fun ha => by cases ha⟩
  case ended =>
    intro j n' p hj
    rw [hlen]
    rcases (hget j _).1 hj with hj | ⟨-, heq⟩
    · obtain ⟨hlt, hne⟩ := ht.ended j n' p hj
      refine ⟨Nat.lt_succ_of_lt hlt, fun hp => ?_⟩
      rcases hkept n' p hp with hact | ⟨-, rfl, -⟩
      · exact hne hact
      · exact absurd hlt (Nat.lt_irrefl _)
    · cases heq
      exact ⟨Nat.lt_succ_of_lt (hended p rfl).1, (hended p rfl).2⟩
  case gone =>
    intro j k p fd hk hphase
    rcases (hget j k).1 hk with hk | ⟨-, rfl⟩
    · obtain ⟨hnone, n', hn'⟩ := ht.gone j k p fd hk hphase
      exact ⟨hnone, n', Added.launch (s := { s with activeNetworks := active }) hn'⟩
    · rcases hph with rfl | ⟨ended, rfl⟩ <;> cases hphase

theorem Sound.onCapabilitiesChanged (hs : s.Sound) (n : Nat) : (s.onCapabilitiesChanged n).Sound := by
  rw [PathManager.onCapabilitiesChanged]
  split
  · exact hs
  · rename_i hnew
    refine ⟨hs.toSockets.launch _ (.inl rfl), hs.toTables.launch _ (.inl rfl) (fun n' p _ hact => .inl ?_)
      (fun n' p hp => ?_) fun p hp => by cases hp⟩
    · have hn : n' ≠ n := by
        rintro rfl
        cases hnew.symm.trans hact
      rw [update_of_ne hn, hact]
    · rw [update_apply] at hp
      split_ifs at hp with hn
      · cases hp
        exact .inr ⟨hn, rfl, rfl⟩
      · exact .inl hp

theorem Sound.onLost (hs : s.Sound) (n : Nat) : (s.onLost n).Sound := by
  rw [PathManager.onLost]
  split
  · exact hs
  · rename_i ended hact
    refine ⟨hs.toSockets.launch _ (.inr ⟨ended, rfl⟩), hs.toTables.launch _ (.inr ⟨ended, rfl⟩)
      (fun n' p _ hact' => ?_) (fun n' p hp => ?_) fun p hp => ?_⟩
    · by_cases hn : n' = n
      · -- the loss of the network is the one that the new handler deals with
        subst hn
        cases hact.symm.trans hact'
        exact .inr ⟨_, (getElem?_launch _ _ _ _ _).2 (.inr ⟨rfl, rfl⟩)⟩
      · exact .inl (by rw [update_of_ne hn, hact'])
    · rw [update_apply] at hp
      split_ifs at hp
      exact .inl hp
    · cases hp
      obtain ⟨k, hk, -⟩ := hs.kept n ended hact
      refine ⟨(List.getElem?_eq_some_iff.1 hk).1, ?_⟩
      rw [update_self]
      exact (Option.some_ne_none ended).symm

/-- `closeAllFds` closes each recorded socket once. -/
theorem Tables.countP_pathFds (ht : s.Tables) (fd : Nat) :
    (List.range s.handlers.length).countP (s.pathFds · = some fd) = s.recorded fd := by
  rw [recorded]
  split_ifs with hfd
  · have heq : ∀ p ∈ List.range s.handlers.length, decide (s.pathFds p = some fd) = (p == fd) := by
      intro p _
      by_cases hp : p = fd
      · rw [hp, hfd, beq_self_eq_true, decide_eq_true rfl]
      · rw [beq_eq_false_iff_ne.2 hp]
        exact decide_eq_false fun h => hp (ht.named p fd h).symm
    have hlt : fd < s.handlers.length := by
      obtain ⟨n, hn⟩ := ht.covered fd fd hfd
      obtain ⟨-, k, hk, -⟩ := ht.listed n fd hn
      exact (List.getElem?_eq_some_iff.1 hk).1
    rw [List.countP_congr fun p hp => by rw [heq p hp]]
    exact List.count_eq_one_of_mem List.nodup_range (List.mem_range.2 hlt)
  · refine List.countP_eq_zero.2 fun p _ hp => hfd ?_
    have hp : s.pathFds p = some fd := of_decide_eq_true hp
    cases ht.named p fd hp
    exact hp

theorem Sound.cleanup (hs : s.Sound) (hfair : ∀ h ∈ s.handlers, ∀ fd ∈ h.phase.toRead, s.pathFds fd = none) :
    s.cleanup.Sound := by
  have hcloses : ∀ fd, s.cleanup.closes fd = s.closes fd + s.recorded fd := fun fd =>
    congrArg (s.closes fd + ·) (hs.countP_pathFds fd)
  refine
    { hs with
      weight := fun fd => ?_
      reading := fun p k _ _ hfd => absurd rfl hfd
      awaited := fun j k fd hk hread => ?_
      named := fun p fd hp => by cases hp
      listed := fun n p hp => by cases hp
      covered := fun p fd hp => by cases hp
      library := fun p => iff_of_false Bool.false_ne_true fun h => h rfl
      owed := fun n p hp => by cases hp
      kept := fun n p hp => by cases hp
      ended := fun j n p hj => ⟨(hs.ended j n p hj).1, (Option.some_ne_none p).symm⟩
      gone := fun j k p fd hk hphase => ⟨rfl, (hs.gone j k p fd hk hphase).2⟩ }
  · have hsum := hs.weight fd
    rw [hcloses]
    change s.handlers.countP _ + 0 + _ = (s.wasBound fd).toNat
    omega
  · rw [hcloses, hs.awaited j k fd hk hread, recorded, hfair k (List.mem_of_getElem? hk) fd hread]
    rfl

/-! ## Runs -/

theorem Sound.advance (hs : s.Sound) (hi : s.handlers[i]? = some h) (ok : Bool) (hfair : s.Fair (.step i ok)) :
    (s.advance i h ok).Sound := by
  obtain ⟨n, ph⟩ := h
  have hfair := hfair _ hi
  cases ph with
  | binding => exact hs.bindUdp hi ok
  | unbound => exact hs.removeNetwork hi hfair
  | bound fd => exact hs.register hi ok hfair
  | registered fd handle => exact hs.startReader hi
  | refused fd =>
    -- the socket is the handler's own, and no other one is to read from it
    refine hs.closeFdSafe hi (.inl rfl) fun j k hj hk hread => hj ?_
    have hfd : fd = i := hs.own i _ hi
    have hown := hs.own j k hk
    obtain ⟨m, ph⟩ := k
    cases ph with
    | registered fd' handle =>
      cases hread
      exact hown.1.symm.trans hfd
    | binding | unbound | bound | refused | unregistering | stopping | closing | finished => cases hread
  | unregistering ended => exact hs.unregister hi hfair
  | stopping handle fd => exact hs.stopReader hi
  | closing fd =>
    exact hs.closeFdSafe hi (.inr rfl) fun j k _ hk => hfair k (List.mem_of_getElem? hk)
  | finished added => exact hs

theorem Sound.step (hs : s.Sound) (e : Event) (hfair : s.Fair e) : (s.step e).Sound := by
  cases e with
  | available n =>
    rw [PathManager.step]
    split_ifs
    exacts [hs, hs.onCapabilitiesChanged n]
  | lost n =>
    rw [PathManager.step]
    split_ifs
    exacts [hs, hs.onLost n]
  | step i ok =>
    rw [PathManager.step]
    split
    · exact hs.advance ‹_› ok hfair
    · exact hs
  | readerEnds handle =>
    refine { hs with reading := fun p k hk hphase hfd => ?_ }
    have hne : p ≠ handle := by
      rintro rfl
      exact hfd hfair
    exact (update_of_ne hne _ _).trans (hs.reading p k hk hphase hfd)
  | stop =>
    rw [PathManager.step]
    split_ifs
    exacts [hs, hs.cleanup hfair]

/-- In every run whose steps find the networks as they were left, whenever no handler is
    running, the active networks with an added path are the ones with a path in the tables
    and in the library, every socket is recorded or closed once, and every path is read. -/
theorem settled_run {events : List Event} (hfair : Runs.Along step Fair {} events) (hidle : (run events).Idle) :
    (run events).Settled := by
  have hsound : (run events).Sound := Runs.foldl_of_along (J := Sound) (fun _ e hs => hs.step e) .start hfair
  exact hsound.settled hidle

/-- A path is added. Another network is lost during the bind and comes back, when its first
    handler has given up; then the first network is lost. -/
def sampleFlap : List Event :=
  [.available 0, .step 0 true, .step 0 true, .step 0 true, .available 1, .step 1 true, .lost 1, .step 1 true, .step 2 true,
    .step 1 true, .available 1, .step 3 true, .step 3 true, .lost 0, .step 3 true, .step 4 true, .step 4 true, .step 4 true]

theorem settled_run_sample : (run sampleFlap).Idle ∧ (run sampleFlap).Settled ∧
    (run sampleFlap).pathHandles 1 = some 3 ∧ (run sampleFlap).closes 0 = 1 :=
  ⟨by decide, settled_run (by decide) (by decide), rfl, rfl⟩

/-- The network comes back during the first bind, and both handlers register a path. -/
def sampleReturn : List Event :=
  [.available 0, .lost 0, .available 0, .step 0 true, .step 1 true, .step 0 true, .step 0 true, .step 2 true, .step 2 true,
    .step 2 true]

/-- The network is lost before the reader is started, and the socket is closed first. -/
def sampleLateReader : List Event :=
  [.available 0, .step 0 true, .step 0 true, .lost 0, .step 1 true, .step 1 true, .step 1 true, .step 0 true]

theorem not_settled : ((run sampleReturn).Idle ∧ ¬(run sampleReturn).Settled) ∧
    (run sampleLateReader).Idle ∧ ¬(run sampleLateReader).Settled := by
  refine ⟨⟨by decide, fun h => ?_⟩, by decide, fun h => ?_⟩
  · -- the library still has the path of the first handler
    obtain ⟨n, hn⟩ := (h.library 0).1 rfl
    obtain ⟨hact, k, hk, hkn, -⟩ := (h.registered n 0).1 hn
    cases hk
    cases hkn
    exact absurd hn (by decide)
  · exact absurd h.readClosed (by decide)

end PathManager

end Mqvpn
