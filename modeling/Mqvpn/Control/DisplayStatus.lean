import Mqvpn.Control.ReadBack
import Mqvpn.Control.Responses

/-!
# The display of a response

What the status display makes of the response to `get_status`. The response is the text of a
tree, and what should be printed are the values of its own members (`ownOutput`).

The members that are searched in the text of a client come before its paths, so that each is
found at its own value. But a response of more than 32769 characters is cut, escapes in a name
are undone only by halves, and a number from 2^63 on is printed as 2^63 - 1. So the display is
complete exactly if none of this happens (`output_iff`).
-/

namespace Mqvpn.Status

open Control Json JsonTree Loops Server Text

/-! ## Going over objects -/

section Objects

variable {α σ : Type} (text : α → List Char)

/-- The objects of a list with commas that are there as a whole in its first `k` characters. -/
def fitting (k : Nat) : List α → List α
  | [] => []
  | a :: l => if (text a).length ≤ k then a :: fitting (k - (text a).length - 1) l else []

/-- The list with commas. -/
def joined (l : List α) : List Char := [','].intercalate (l.map text)

variable {text}

theorem joined_cons (a : α) (l : List α) : joined text (a :: l) = text a ++ sepTail (l.map text) := intercalate_cons _ _

theorem sepTail_cons (a : α) (l : List α) : sepTail ((a :: l).map text) = ',' :: joined text (a :: l) := rfl

theorem fitting_zero {l : List α} (hobj : ∀ a ∈ l, IsObject (text a)) : fitting text 0 l = [] := by
  cases l with
  | nil => rfl
  | cons a l =>
    obtain ⟨cs, hcs⟩ := (hobj a List.mem_cons_self).exists_cons
    rw [fitting, if_neg]
    rw [hcs, List.length_cons]
    omega

theorem fitting_isPrefix (k : Nat) (l : List α) : fitting text k l <+: l := by
  induction l generalizing k with
  | nil => exact List.nil_prefix
  | cons a l ih =>
    rw [fitting]
    split_ifs
    · exact (List.cons_prefix_cons).2 ⟨rfl, ih _⟩
    · exact List.nil_prefix

/-- All objects are there exactly if the list is. -/
theorem fitting_eq_iff {l : List α} (hobj : ∀ a ∈ l, IsObject (text a)) (k : Nat) :
    fitting text k l = l ↔ (joined text l).length ≤ k := by
  induction l generalizing k with
  | nil => exact iff_of_true rfl (Nat.zero_le k)
  | cons a l ih =>
    obtain ⟨-, hl⟩ := List.forall_mem_cons.1 hobj
    rw [fitting, joined_cons, List.length_append]
    split_ifs with hle
    · rw [List.cons_inj_right]
      cases l with
      | nil => exact iff_of_true rfl (by simpa [sepTail] using hle)
      | cons b l =>
        have hpos : 0 < (joined text (b :: l)).length := by
          obtain ⟨cs, hcs⟩ := (hl b List.mem_cons_self).exists_cons
          rw [joined_cons, hcs]
          exact Nat.succ_pos _
        rw [ih hl, sepTail_cons, List.length_cons]
        omega
    · exact iff_of_false (by simp) (by omega)

variable {body : σ → List Char → Nat → Option (σ × Bool)} {g : σ → α → σ}

/-- A list that is cut: the body has the objects that are there as a whole, in order. -/
theorem yields_objects (hbody : ∀ s obj, Stable (body s obj)) {l : List α} (hobj : ∀ a ∈ l, IsObject (text a))
    (hg : ∀ a ∈ l, ∀ s r, Yields (body s (text a)) r ↔ r = (g s a, false)) {stop : List Char}
    (hstop : stop = [] ∨ ∃ cs, stop = ']' :: cs) (s out : σ) (k : Nat) :
    Yields (listLoop body s ((joined text l ++ stop).take k)) out ↔ out = (fitting text k l).foldl g s := by
  induction l generalizing s k with
  | nil =>
    change Yields (listLoop body s (stop.take k)) out ↔ out = s
    rcases hstop with rfl | ⟨cs, rfl⟩
    · rw [List.take_nil]
      exact yields_nil
    · cases k with
      | zero => exact yields_nil
      | succ k => exact yields_close
  | cons a l ih =>
    obtain ⟨ha, hl⟩ := List.forall_mem_cons.1 hobj
    obtain ⟨hga, hgl⟩ := List.forall_mem_cons.1 hg
    obtain ⟨cs, hcs⟩ := ha.exists_cons
    rw [joined_cons, List.append_assoc, fitting]
    split_ifs with hle
    · -- the object is there, and the loop goes on behind it
      have hskip := skipJsonValue_object ha ((sepTail (l.map text) ++ stop).take (k - (text a).length))
      have hupTo : upTo (text a ++ (sepTail (l.map text) ++ stop).take (k - (text a).length))
          ((sepTail (l.map text) ++ stop).take (k - (text a).length)) = text a := by
        rw [upTo, List.length_append, Nat.add_sub_cancel, List.take_left]
      rw [List.take_append, List.take_of_length_le hle]
      rw [hcs, List.cons_append] at hskip hupTo ⊢
      rw [yields_object hbody hskip, hupTo, ← hcs]
      simp only [hga s, exists_eq_left, Bool.false_eq_true, if_false]
      rw [yields_advance, List.foldl_cons]
      cases l with
      | nil => exact ih hl hgl (g s a) (k - (text a).length)
      | cons b l =>
        rw [sepTail_cons, List.cons_append]
        cases hk : k - (text a).length with
        | zero =>
          rw [List.take_zero, fitting_zero hl]
          exact yields_nil
        | succ k =>
          rw [List.take_succ_cons, yields_comma]
          exact ih hl hgl (g s a) k
    · -- the object is cut
      rw [List.take_append_of_le_length (by omega)]
      cases k with
      | zero => exact yields_nil
      | succ k =>
        have hskip := skipJsonValue_take ha (Nat.succ_pos k) (Nat.not_le.1 hle)
        rw [hcs, List.take_succ_cons] at hskip ⊢
        exact yields_cut hskip

/-- A list that is there as a whole. -/
theorem yields_objects_all (hbody : ∀ s obj, Stable (body s obj)) {l : List α} (hobj : ∀ a ∈ l, IsObject (text a))
    (hg : ∀ a ∈ l, ∀ s r, Yields (body s (text a)) r ↔ r = (g s a, false)) (cs : List Char) (s out : σ) :
    Yields (listLoop body s (joined text l ++ ']' :: cs)) out ↔ out = l.foldl g s := by
  have hall := yields_objects hbody hobj hg (.inr ⟨cs, rfl⟩) s out (joined text l ++ ']' :: cs).length
  rw [List.take_length, (fitting_eq_iff hobj _).2 (by rw [List.length_append]; exact Nat.le_add_right _ _)] at hall
  exact hall

theorem foldl_concat {β : Type} (f : α → β) (l : List α) (acc : List β) :
    l.foldl (fun acc a => acc ++ [f a]) acc = acc ++ l.map f := by
  induction l generalizing acc with
  | nil => exact (List.append_nil acc).symm
  | cons a l ih => rw [List.foldl_cons, ih, List.append_assoc, List.singleton_append, List.map_cons]

theorem foldl_concat_length {β : Type} (f : Nat → α → β) (l : List α) :
    l.foldl (fun acc a => acc ++ [f acc.length a]) [] = l.mapIdx f := by
  induction l using List.reverseRecOn with
  | nil => rfl
  | append_singleton l a ih =>
    rw [List.foldl_append, ih, List.foldl_cons, List.foldl_nil, List.length_mapIdx, List.mapIdx_concat]

end Objects

/-! ## Paths -/

/-- What is printed of a path. -/
def printedPath (idx : Nat) (p : PathMetrics) : PathLine where
  idx
  srtt := (p.srtt / 1000).toNat
  minRtt := (p.minRtt / 1000).toNat
  cwnd := min p.cwnd.toNat int64Max
  state := p.state.toNat

theorem length_u64_le (n : UInt64) : (u64 n).length ≤ 20 :=
  length_decimal_le (by decide) (n.toNat_lt.trans (by decide))

theorem length_pathText_lt (p : PathMetrics) : (pathText p).length < 512 := by
  have hstate : (decimal p.state.toNat).length ≤ 3 := length_decimal_le (by decide) (p.state.toNat_lt.trans (by decide))
  have hlabel : (pathStateLabel p.state).length ≤ 10 := by
    rw [pathStateLabel]
    split_ifs <;> decide
  have h₁ := length_u64_le p.pathId
  have h₂ := length_u64_le (p.srtt / 1000)
  have h₃ := length_u64_le (p.minRtt / 1000)
  have h₄ := length_u64_le p.cwnd
  have h₅ := length_u64_le p.bytesInFlight
  have h₆ := length_u64_le p.sendBytes
  have h₇ := length_u64_le p.recvBytes
  have h₈ := length_u64_le p.pktSend
  have h₉ := length_u64_le p.pktRecv
  have h₁₀ := length_u64_le p.lost
  unfold pathText
  simp only [List.length_append, String.reduceToList, List.length_cons, List.length_nil]
  omega

theorem toInt_of_lt {n : Nat} (h : n < 2 ^ 31) : toInt (min (n : Int) (2 ^ 63 - 1)) = n := by
  have hmin : min (n : Int) (2 ^ 63 - 1) = n := by omega
  rw [hmin, toInt, Int.bmod_eq_of_le] <;> omega

/-- Round-trip times are below the largest number. -/
theorem min_div (n : UInt64) : min ((n / 1000).toNat : Int) (2 ^ 63 - 1) = (n / 1000).toNat := by
  have hlt := n.toNat_lt
  rw [UInt64.toNat_div, show (1000 : UInt64).toNat = 1000 from rfl]
  omega

theorem pathBody_text (lines : List PathLine) (p : PathMetrics) :
    pathBody lines (pathTree p).text = (lines ++ [printedPath lines.length p], false) := by
  have hsrtt : readInt64 (findKey "srtt_ms".toList (pathTree p).text) = min ((p.srtt / 1000).toNat : Int) (2 ^ 63 - 1) :=
    readInt64_record 1 (by decide) rfl (by decide) (by simp [leaf_number]) rfl
  have hminRtt : readInt64 (findKey "min_rtt_ms".toList (pathTree p).text) =
      min ((p.minRtt / 1000).toNat : Int) (2 ^ 63 - 1) :=
    readInt64_record 2 (by decide) rfl (by decide) (by simp [leaf_number]) rfl
  have hcwnd : toUInt64 (readInt64 (findKey "cwnd".toList (pathTree p).text)) = min p.cwnd.toNat int64Max :=
    toUInt64_record 3 (by decide) rfl (by decide) (by simp [leaf_number]) rfl
  have hstate : readInt64 (findKey "state".toList (pathTree p).text) = min (p.state.toNat : Int) (2 ^ 63 - 1) :=
    readInt64_record 10 (by decide) rfl (by decide) (by simp [leaf_number]) rfl
  have hlength : ¬512 ≤ (pathTree p).text.length := by
    rw [text_pathTree]
    exact Nat.not_le.2 (length_pathText_lt p)
  rw [pathBody, if_neg hlength, hsrtt, hminRtt, hcwnd, hstate, min_div, min_div,
    toInt_of_lt (p.state.toNat_lt.trans (by decide))]
  rfl

/-! ## Clients -/

/-- A client whose texts can stand in strings as they are, and fit in the buffers. -/
structure WellFormed (ci : ClientInfo) : Prop where
  username : isBody ci.username = true
  length_username : ci.username.length ≤ 63
  endpoint : ∀ c ∈ ci.endpoint, isPlain c = true
  length_endpoint : ci.endpoint.length ≤ 63

/-- What is printed of a client. -/
def printedClient (now : UInt64) (ci : ClientInfo) : Shown where
  user := orUnknown (unescape ci.username)
  endpoint := orUnknown ci.endpoint
  connSec := (connSec now ci.connectedAtUs).toNat
  bytesRx := min ci.bytesRx.toNat int64Max
  bytesTx := min ci.bytesTx.toNat int64Max
  paths := ci.paths.mapIdx printedPath

variable {now : UInt64} {ci : ClientInfo}

theorem isObject_pathTree (p : PathMetrics) : IsObject (pathTree p).text := ⟨_, _, rfl⟩

theorem isObject_clientTree (now : UInt64) (ci : ClientInfo) : IsObject (clientTree now ci).text := ⟨_, _, rfl⟩

theorem min_connSec (now connectedAtUs : UInt64) :
    min (connSec now connectedAtUs).toNat int64Max = (connSec now connectedAtUs).toNat := by
  have hlt := (now - connectedAtUs).toNat_lt
  rw [connSec, int64Max]
  split_ifs
  · rw [UInt64.toNat_div, show (1000000 : UInt64).toNat = 1000000 from rfl]
    omega
  · rfl

theorem plain_of_isPlain {s : List Char} (h : ∀ c ∈ s, isPlain c = true) : Plain s := fun c hc =>
  ⟨(of_decide_eq_true (h c hc)).1, (of_decide_eq_true (h c hc)).2.1⟩

/-- The loop over the paths has each of them, in order. -/
theorem yields_paths (now : UInt64) (ci : ClientInfo) {out : List PathLine} :
    Yields (inArray (pathLoop []) (findKey "paths".toList (clientTree now ci).text)) out ↔
      out = ci.paths.mapIdx printedPath := by
  obtain ⟨tail, -, hfind⟩ : ∃ tail, Ends tail ∧ findKey "paths".toList (clientTree now ci).text =
      some ((Syn.arrayOf (ci.paths.map pathTree)).text ++ tail) :=
    findKey_record (i := 6) (by decide) rfl rfl (by decide) (by simp [leaf_number, leaf_plain])
  have htext : (Syn.arrayOf (ci.paths.map pathTree)).text ++ tail =
      '[' :: (joined (fun p => (pathTree p).text) ci.paths ++ ']' :: tail) := by
    rw [Syn.text_arrayOf, List.map_map, joined]
    simp [Function.comp_def]
  rw [hfind, htext, ← foldl_concat_length]
  refine Iff.trans yields_skipWs (yields_objects_all (fun _ _ => stable_some _) (fun p _ => isObject_pathTree p)
    (fun p _ lines r => ?_) tail [] out)
  rw [yields_some, pathBody_text]

theorem printClient_text (h : WellFormed ci) {c : Shown} :
    Yields (printClient (clientTree now ci).text) c ↔ c = printedClient now ci := by
  have huser : ((findKey "user".toList (clientTree now ci).text).map (stringBuf · 64)).getD [] = unescape ci.username :=
    stringBuf_record 0 (by decide) rfl (by decide) (by simp) rfl h.username h.length_username
  have hendpoint : ((findKey "endpoint".toList (clientTree now ci).text).map (stringBuf · 64)).getD [] = ci.endpoint :=
    (stringBuf_record 1 (by decide) rfl (by decide) (by simp [leaf_plain]) rfl (isBody_of_plain h.endpoint)
      h.length_endpoint).trans (unescape_plain (plain_of_isPlain h.endpoint))
  have hconnSec : toUInt64 (readInt64 (findKey "connected_sec".toList (clientTree now ci).text)) =
      min (connSec now ci.connectedAtUs).toNat int64Max :=
    toUInt64_record 2 (by decide) rfl (by decide) (by simp [leaf_plain]) rfl
  have hbytesTx : toUInt64 (readInt64 (findKey "bytes_tx".toList (clientTree now ci).text)) =
      min ci.bytesTx.toNat int64Max :=
    toUInt64_record 3 (by decide) rfl (by decide) (by simp [leaf_number, leaf_plain]) rfl
  have hbytesRx : toUInt64 (readInt64 (findKey "bytes_rx".toList (clientTree now ci).text)) =
      min ci.bytesRx.toNat int64Max :=
    toUInt64_record 4 (by decide) rfl (by decide) (by simp [leaf_number, leaf_plain]) rfl
  refine yields_map.trans ?_
  simp only [yields_paths, exists_eq_left, huser, hendpoint, hconnSec, hbytesTx, hbytesRx, min_connSec]
  exact eq_comm

/-! ## What should be printed -/

/-- The own number of an object with this name. -/
def ownNumber (key : String) (e : Syn .value) : Nat :=
  match e.ownValue key.toList with
  | some (.bare t) => (digits 0 t.chars).1
  | _ => 0

/-- The own text of an object with this name. -/
def ownText (key : String) (e : Syn .value) : List Char := (e.ownString key.toList).getD []

/-- The elements of the own array of an object with this name. -/
def ownElements (key : String) (e : Syn .value) : List (Syn .value) :=
  match e.ownValue key.toList with
  | some (.array _ es) => es.elements
  | _ => []

/-- The values of the own members of a path. -/
def ownPath (idx : Nat) (e : Syn .value) : PathLine where
  idx
  srtt := ownNumber "srtt_ms" e
  minRtt := ownNumber "min_rtt_ms" e
  cwnd := ownNumber "cwnd" e
  state := ownNumber "state" e

/-- The values of the own members of a client. -/
def ownClient (e : Syn .value) : Shown where
  user := orUnknown (ownText "user" e)
  endpoint := orUnknown (ownText "endpoint" e)
  connSec := ownNumber "connected_sec" e
  bytesRx := ownNumber "bytes_rx" e
  bytesTx := ownNumber "bytes_tx" e
  paths := (ownElements "paths" e).mapIdx ownPath

/-- The clients of a response, each of them once, in order, with the values of its own members. -/
def ownOutput (response : Syn .value) : Output :=
  .status (ownNumber "n_clients" response) ((ownElements "clients" response).map ownClient)

theorem digits_number (n : Nat) : (digits 0 (Nat.toDigits 10 n)).1 = n := congrArg Prod.fst (digits_decimal n)

theorem elements_ofElems (vs : List (Syn .value)) : (Syn.ofElems vs).elements = vs := Syn.elements_arrayOf vs

theorem ownPath_pathTree (idx : Nat) (p : PathMetrics) :
    ownPath idx (pathTree p) = { printedPath idx p with cwnd := p.cwnd.toNat } := by
  have hsrtt : ownNumber "srtt_ms" (pathTree p) = (p.srtt / 1000).toNat := digits_number _
  have hminRtt : ownNumber "min_rtt_ms" (pathTree p) = (p.minRtt / 1000).toNat := digits_number _
  have hcwnd : ownNumber "cwnd" (pathTree p) = p.cwnd.toNat := digits_number _
  have hstate : ownNumber "state" (pathTree p) = p.state.toNat := digits_number _
  rw [ownPath, hsrtt, hminRtt, hcwnd, hstate]
  rfl

theorem ownClient_clientTree (h : WellFormed ci) :
    ownClient (clientTree now ci) =
      { printedClient now ci with
        user := orUnknown (decode ci.username)
        bytesRx := ci.bytesRx.toNat
        bytesTx := ci.bytesTx.toNat
        paths := ci.paths.mapIdx fun idx p => ownPath idx (pathTree p) } := by
  have huser : ownText "user" (clientTree now ci) = decode ci.username := by
    change decode (Body.ofText ci.username).raw = _
    rw [Body.raw_ofText h.username]
  have hendpoint : ownText "endpoint" (clientTree now ci) = ci.endpoint := by
    change decode (Body.ofText ci.endpoint).raw = _
    rw [Body.raw_ofText (isBody_of_plain h.endpoint), decode_of_plain h.endpoint]
  have hconnSec : ownNumber "connected_sec" (clientTree now ci) = (connSec now ci.connectedAtUs).toNat := digits_number _
  have hbytesTx : ownNumber "bytes_tx" (clientTree now ci) = ci.bytesTx.toNat := digits_number _
  have hbytesRx : ownNumber "bytes_rx" (clientTree now ci) = ci.bytesRx.toNat := digits_number _
  have hpaths : (ownElements "paths" (clientTree now ci)).mapIdx ownPath =
      ci.paths.mapIdx fun idx p => ownPath idx (pathTree p) := by
    have helements : ownElements "paths" (clientTree now ci) = ci.paths.map pathTree := elements_ofElems _
    rw [helements, List.mapIdx_eq_iff]
    intro idx
    rw [List.getElem?_mapIdx, List.getElem?_map, Option.map_map]
    rfl
  rw [ownClient, huser, hendpoint, hconnSec, hbytesTx, hbytesRx, hpaths]
  rfl

/-- What is printed of a client are the values of its own members. -/
structure Exact (ci : ClientInfo) : Prop where
  username : plainEscapes ci.username = true
  bytesRx : ci.bytesRx.toNat < 2 ^ 63
  bytesTx : ci.bytesTx.toNat < 2 ^ 63
  cwnd : ∀ p ∈ ci.paths, p.cwnd.toNat < 2 ^ 63

theorem min_eq_iff (n : Nat) : min n int64Max = n ↔ n < 2 ^ 63 := by
  rw [int64Max]
  omega

theorem unescape_eq_nil {s : List Char} : unescape s = [] ↔ s = [] := by
  constructor
  · intro h
    fun_cases unescape s with
    | case1 => rfl
    | case2 c cs => cases h
    | case3 c cs hslash =>
      rw [unescape] at h
      · cases h
      · exact hslash
  · rintro rfl
    rfl

theorem utf8_ne_nil (n : Nat) : utf8 n ≠ [] := by
  rw [utf8]
  split_ifs <;> exact List.cons_ne_nil _ _

theorem join_eq_nil {ps : List Piece} : join ps = [] ↔ ps = [] := by
  constructor
  · intro h
    fun_cases join ps with
    | case1 => rfl
    | case2 hi lo ps hsurrogates =>
      rw [join, if_pos hsurrogates, List.append_eq_nil_iff] at h
      exact absurd h.1 (utf8_ne_nil _)
    | case3 hi lo ps hsurrogates =>
      rw [join, if_neg hsurrogates, List.append_eq_nil_iff] at h
      exact absurd h.1 (utf8_ne_nil _)
    | case4 n ps hunit =>
      rw [join, List.append_eq_nil_iff] at h
      · exact absurd h.1 (utf8_ne_nil _)
      · exact hunit
    | case5 c ps => cases h
  · rintro rfl
    rfl

theorem decode_eq_nil {s : List Char} : decode s = [] ↔ s = [] := by
  rw [decode, join_eq_nil]
  constructor
  · intro h
    cases s with
    | nil => rfl
    | cons c cs =>
      rw [pieces.eq_def] at h
      split at h
      · rename_i heq
        cases heq
      · cases h
      · cases h
      · cases h
  · rintro rfl
    rfl

theorem orUnknown_inj {s t : List Char} (h : s = [] ↔ t = []) : orUnknown s = orUnknown t ↔ s = t := by
  rw [orUnknown, orUnknown]
  by_cases hs : s = []
  · rw [if_pos hs, if_pos (h.1 hs), hs, h.1 hs]
    exact iff_of_true rfl rfl
  · rw [if_neg hs, if_neg (mt h.2 hs)]

theorem printedPath_eq_iff (idx : Nat) (p : PathMetrics) :
    printedPath idx p = ownPath idx (pathTree p) ↔ p.cwnd.toNat < 2 ^ 63 := by
  rw [ownPath_pathTree, ← min_eq_iff]
  exact ⟨fun h => congrArg PathLine.cwnd h, fun h => by rw [← h]; rfl⟩

theorem printedClient_eq_iff (h : WellFormed ci) : printedClient now ci = ownClient (clientTree now ci) ↔ Exact ci := by
  have hname : orUnknown (unescape ci.username) = orUnknown (decode ci.username) ↔ plainEscapes ci.username = true :=
    (orUnknown_inj (unescape_eq_nil.trans decode_eq_nil.symm)).trans (unescape_eq_decode_iff h.username)
  have hpaths : ci.paths.mapIdx printedPath = (ci.paths.mapIdx fun idx p => ownPath idx (pathTree p)) ↔
      ∀ p ∈ ci.paths, p.cwnd.toNat < 2 ^ 63 := by
    rw [List.mapIdx_eq_mapIdx_iff]
    simp only [printedPath_eq_iff]
    constructor
    · intro h p hp
      obtain ⟨i, hi, rfl⟩ := List.getElem_of_mem hp
      exact h i hi
    · exact fun h i hi => h _ (List.getElem_mem hi)
  rw [ownClient_clientTree h, printedClient, Shown.mk.injEq]
  dsimp only
  rw [hname, min_eq_iff, min_eq_iff, hpaths]
  exact ⟨fun ⟨h₁, _, _, h₂, h₃, h₄⟩ => ⟨h₁, h₂, h₃, h₄⟩, fun ⟨h₁, h₂, h₃, h₄⟩ => ⟨h₁, rfl, rfl, h₂, h₃, h₄⟩⟩

/-! ## The response -/

theorem nul_notMem_body {raw : List Char} (h : isBody raw = true) : '\x00' ∉ raw := by
  have hhex {c : Char} (hc : isHex c = true) : '\x00' ≠ c := by
    rintro rfl
    exact absurd hc (by decide)
  induction raw, h using isBody_induction with
  | nil => exact List.not_mem_nil
  | unit a b c d cs _ ha hb hc hd _ ih =>
    simp only [List.mem_cons, not_or]
    exact ⟨by decide, by decide, hhex ha, hhex hb, hhex hc, hhex hd, ih⟩
  | escape e cs _ he _ ih =>
    simp only [List.mem_cons, not_or]
    refine ⟨by decide, ?_, ih⟩
    rintro rfl
    exact absurd he (by decide)
  | char c cs _ _ _ hctl _ ih =>
    rw [List.mem_cons, not_or]
    refine ⟨?_, ih⟩
    rintro rfl
    exact absurd hctl (by decide)

/-- The text of a tree has no zeros. -/
theorem nul_notMem_text {i : Ix} (t : Syn i) : '\x00' ∉ t.text := by
  have hblank (ws : Blank) : '\x00' ∉ ws.chars := fun h => absurd (ws.blank _ h) (by decide)
  have hsep {i : Ix} (t : Syn i) : '\x00' ∉ t.sep := by cases t <;> simp [Syn.sep]
  induction t with
  | bare t => exact fun h => absurd (t.bare _ h) (by decide)
  | string s => simp [Syn.text, nul_notMem_body s.body]
  | array ws es ih => simp [Syn.text, hblank, ih]
  | object ws ms ih => simp [Syn.text, hblank, ih]
  | noElems => exact List.not_mem_nil
  | elem before v after es ihv ihes => simp [Syn.text, hblank, hsep, ihv, ihes]
  | noMembers => exact List.not_mem_nil
  | member before name beforeColon afterColon v after ms ihv ihms =>
    simp [Syn.text, hblank, hsep, nul_notMem_body name.body, ihv, ihms]

/-- The tree of a response with these clients. -/
def statusTree (now : UInt64) (clients : List ClientInfo) : Syn .value :=
  .object .none (clientsTree clients.length (clients.map (clientTree now)))

/-- The text of the clients, with commas. -/
def clientsText (now : UInt64) (clients : List ClientInfo) : List Char := joined (fun ci => (clientTree now ci).text) clients

variable {clients : List ClientInfo}

theorem text_statusTree (now : UInt64) (clients : List ClientInfo) :
    (statusTree now clients).text = headText clients.length ++ (clientsText now clients ++ "]\x7d".toList) := by
  rw [statusTree, clientsTree, Syn.text_record]
  · unfold headText clientsText joined
    simp [text_truth, text_number, Syn.text_arrayOf, Function.comp_def]
  · decide

theorem length_headText_le {n : Nat} (h : n ≤ maxUsers) : (headText n).length ≤ 64 := by
  have hdecimal : (decimal n).length ≤ 2 := length_decimal_le (by decide) (Nat.lt_of_le_of_lt h (by decide))
  unfold headText
  simp only [List.length_append, String.reduceToList, List.length_cons, List.length_nil]
  omega

/-- The head of a response with what follows it. -/
theorem headText_append (n : Nat) (cs : List Char) : headText n ++ cs =
    '{' :: (quote "ok".toList ++ ':' :: ("true".toList ++ ',' :: (quote "n_clients".toList ++ ':' :: (decimal n ++
      ',' :: (quote "clients".toList ++ ':' :: '[' :: cs))))) := by
  unfold headText
  simp [quote]

theorem plain_ok : Plain "ok".toList := plain_of_isPlain (by decide)

theorem plain_nClients : Plain "n_clients".toList := plain_of_isPlain (by decide)

theorem isOk_headText (n : Nat) (cs : List Char) : isOk (headText n ++ cs) = true := by
  rw [headText_append, isOk, findKey_cons (by decide), findKey_quote_self plain_ok]
  rfl

theorem findKey_nClients (n : Nat) (cs : List Char) :
    ∃ tail, Ends tail ∧ findKey "n_clients".toList (headText n ++ cs) = some ((Syn.number n).text ++ tail) := by
  refine ⟨',' :: (quote "clients".toList ++ ':' :: '[' :: cs), .inl rfl, ?_⟩
  rw [headText_append, findKey_cons (by decide), findKey_quote_of_ne plain_ok (by decide), findKey_cons (by decide),
    findKey_append (by decide), findKey_cons (by decide), findKey_quote_self plain_nClients]
  exact congrArg some ((literalOf n).skipWs_text _)

theorem findKey_clients (n : Nat) (cs : List Char) :
    findKey "clients".toList (headText n ++ cs) = some ('[' :: cs) := by
  rw [headText_append, findKey_cons (by decide), findKey_quote_of_ne plain_ok (by decide), findKey_cons (by decide),
    findKey_append (by decide), findKey_cons (by decide), findKey_quote_of_ne plain_nClients (by decide),
    findKey_cons (by decide), findKey_append (notMem_decimal (by decide) n), findKey_cons (by decide),
    findKey_quote_self (plain_of_isPlain (by decide))]
  rfl

/-- The room for the clients in the buffer of the display. -/
def room (n : Nat) : Nat := statusBufSize - 1 - (headText n).length

theorem ctrlQuery_statusTree (now : UInt64) (h : clients.length ≤ maxUsers) :
    ctrlQuery ((statusTree now clients).text ++ ['\n']) =
      headText clients.length ++ (clientsText now clients ++ "]\x7d\n".toList).take (room clients.length) := by
  have hnul := nul_notMem_text (statusTree now clients)
  have hhead := length_headText_le h
  rw [ctrlQuery, List.takeWhile_eq_self_iff.2, text_statusTree, List.append_assoc, List.take_append,
    List.take_of_length_le (by rw [statusBufSize]; omega), List.append_assoc]
  · rfl
  · intro c hc
    rw [decide_eq_true_eq]
    rintro rfl
    rcases List.mem_append.1 (List.mem_of_mem_take hc) with hc | hc
    · exact hnul hc
    · exact absurd hc (by decide)

/-- What is printed of a response: the clients whose texts are in the buffer as a whole. -/
theorem yields_runStatus (now : UInt64) (h : clients.length ≤ maxUsers) (hclients : ∀ ci ∈ clients, WellFormed ci)
    {out : Output} : Yields (runStatus ((statusTree now clients).text ++ ['\n'])) out ↔
      out = .status clients.length
        ((fitting (fun ci => (clientTree now ci).text) (room clients.length) clients).map (printedClient now)) := by
  set buf := (clientsText now clients ++ "]\x7d\n".toList).take (room clients.length)
  have hrun : runStatus ((statusTree now clients).text ++ ['\n']) =
      fun fuel => (inArray (clientLoop []) (some ('[' :: buf)) fuel).map (.status clients.length) := by
    funext fuel
    obtain ⟨tail, hends, hn⟩ := findKey_nClients clients.length buf
    have hlt : clients.length < 2 ^ 31 := Nat.lt_of_le_of_lt h (by decide)
    rw [runStatus, ctrlQuery_statusTree now h, isOk_headText, if_pos rfl, findKey_clients, hn, readInt64_number _ hends,
      toInt_of_lt hlt]
  have hloop {shown : List Shown} : Yields (inArray (clientLoop []) (some ('[' :: buf))) shown ↔
      shown = (fitting (fun ci => (clientTree now ci).text) (room clients.length) clients).map (printedClient now) := by
    rw [← List.nil_append (List.map _ _), ← foldl_concat]
    refine Iff.trans yields_skipWs (yields_objects stable_clientBody (fun ci _ => isObject_clientTree now ci)
      (fun ci hci shown r => ?_) (.inr ⟨_, rfl⟩) [] shown (room clients.length))
    refine yields_map.trans ?_
    simp only [printClient_text (hclients ci hci), exists_eq_left]
    exact eq_comm
  rw [hrun]
  refine yields_map.trans ?_
  simp only [hloop, exists_eq_left]
  exact eq_comm

/-- All clients of the response, with the values of their own members, are printed exactly if
    it is not cut, and these values are read as they are. -/
theorem output_iff (now : UInt64) (h : clients.length ≤ maxUsers) (hclients : ∀ ci ∈ clients, WellFormed ci) :
    Yields (runStatus ((statusTree now clients).text ++ ['\n'])) (ownOutput (statusTree now clients)) ↔
      (statusTree now clients).text.length ≤ statusBufSize + 1 ∧ ∀ ci ∈ clients, Exact ci := by
  have hobj : ∀ ci ∈ clients, IsObject (clientTree now ci).text := fun ci _ => isObject_clientTree now ci
  have hown : ownOutput (statusTree now clients) =
      .status clients.length (clients.map fun ci => ownClient (clientTree now ci)) := by
    have hcount : ownNumber "n_clients" (statusTree now clients) = clients.length := digits_number _
    have helements : ownElements "clients" (statusTree now clients) = clients.map (clientTree now) := elements_ofElems _
    rw [ownOutput, hcount, helements, List.map_map]
    rfl
  have hfits : (statusTree now clients).text.length ≤ statusBufSize + 1 ↔
      fitting (fun ci => (clientTree now ci).text) (room clients.length) clients = clients := by
    have hhead := length_headText_le h
    rw [fitting_eq_iff hobj, text_statusTree, List.length_append, List.length_append, room, statusBufSize, clientsText]
    simp only [String.reduceToList, List.length_cons, List.length_nil]
    omega
  rw [yields_runStatus now h hclients, hown, Output.status.injEq, hfits]
  constructor
  · rintro ⟨-, heq⟩
    -- as many are printed as there are, so that none is missing
    have hlength := congrArg List.length heq
    rw [List.length_map, List.length_map] at hlength
    have hall := (fitting_isPrefix (room clients.length) clients).eq_of_length hlength.symm
    rw [hall] at heq
    exact ⟨hall, fun ci hci => (printedClient_eq_iff (hclients ci hci)).1 (List.map_inj_left.1 heq ci hci).symm⟩
  · rintro ⟨hall, hexact⟩
    rw [hall]
    exact ⟨rfl, List.map_congr_left fun ci hci => ((printedClient_eq_iff (hclients ci hci)).2 (hexact ci hci)).symm⟩

/-! ## The responses of the server -/

variable {s : Server} {env : Nat → ConnReport}

theorem length_endpoint_le (peer : Peer) : (Control.endpoint peer).length ≤ 63 := by
  cases peer with
  | v4 a b c d port => exact List.length_take_le _ _
  | v6 addr port => exact List.length_take_le _ _
  | other => exact (by decide : 2 ≤ 63)

theorem wellFormed_clients (hnames : ∀ ci ∈ getClientInfo s env, isBody ci.username = true) :
    ∀ ci ∈ getClientInfo s env, WellFormed ci := by
  intro ci hci
  have hname := hnames ci hci
  obtain ⟨⟨c, k⟩, -, rfl⟩ := List.mem_map.1 hci
  exact ⟨hname, List.length_take_le _ _, isPlain_endpoint _, length_endpoint_le _⟩

theorem length_clients_le : (getClientInfo s env).length ≤ maxUsers := by
  rw [getClientInfo, List.length_map]
  exact List.length_take_le _ _

/-- The response is an error, or the text of the tree with all clients. -/
theorem respond_status (hnames : ∀ ci ∈ getClientInfo s env, isBody ci.username = true) (now : UInt64) :
    IsEnvelope (respond (ctrlCmdGetStatus s env now)) ∨
      respond (ctrlCmdGetStatus s env now) = (statusTree now (getClientInfo s env)).text :=
  respond_clients _ (clientTree now) _ (fun ci hci => text_clientTree now (hnames ci hci)
    (isBody_of_plain (wellFormed_clients hnames ci hci).endpoint)) _

end Mqvpn.Status
