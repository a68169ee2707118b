import Mqvpn.ConfigFile.Json
import Mqvpn.Lib.Loops

/-!
# The status display

`status.c` asks the server for its clients and prints them. The response is not parsed: a loop
goes over the text of the array `clients`, from object to object, and another one over the array
`paths` of each client. Both take their fuel as an argument here, and what is printed with
enough fuel is what they print.

A round of such a loop leaves the position as it is on what is neither an object nor a comma nor
a blank, so that the display ends exactly on the texts in which there is nothing else where a
round begins (`ends_iff`).
-/

namespace Mqvpn.Status

open Json Text Loops

/-! ## Reading -/

/-- `STATUS_BUF_SIZE` -/
def statusBufSize : Nat := 32768

/-- `ctrl_query`, from the bytes that the server sends: those for which there is room, and as a
    text only up to the first zero. -/
def ctrlQuery (wire : List Char) : List Char := (wire.take (statusBufSize - 1)).takeWhile (· ≠ '\x00')

/-- The loop of `skip_json_value` over a value in brackets, which counts only brackets of one
    kind: the depth, and whether it is in a string. -/
def bracketLoop (opening closing : Char) (depth : Nat) : Bool → List Char → Option (List Char)
  | _, [] => none
  | true, '\\' :: _ :: cs => bracketLoop opening closing depth true cs
  | true, c :: cs => bracketLoop opening closing depth (c ≠ '"') cs
  | false, c :: cs =>
    if c = '"' then bracketLoop opening closing depth true cs
    else if c = opening then bracketLoop opening closing (depth + 1) false cs
    else if c = closing then
      if depth = 1 then some cs else bracketLoop opening closing (depth - 1) false cs
    else bracketLoop opening closing depth false cs

/-- `skip_json_value` -/
def skipJsonValue (p : List Char) : Option (List Char) :=
  match skipWs p with
  | '"' :: cs => (literal cs).map Prod.snd
  | '{' :: cs => bracketLoop '{' '}' 1 false cs
  | '[' :: cs => bracketLoop '[' ']' 1 false cs
  | cs => some (cs.dropWhile fun c => c ≠ ',' ∧ c ≠ '}' ∧ c ≠ ']' ∧ isSpace c = false)

/-- `json_read_int64` -/
def readInt64 : Option (List Char) → Int
  | none => 0
  | some p => ((strtol p).map Prod.fst).getD 0

/-- The conversion of an `int64_t` to a `uint64_t`. -/
def toUInt64 (v : Int) : Nat := (v % 2 ^ 64).toNat

/-! ## Printing -/

/-- The values that are printed of a path, before they are formatted. -/
structure PathLine where
  idx : Nat
  srtt : Int
  minRtt : Int
  cwnd : Nat
  state : Int
  deriving DecidableEq

/-- The values that are printed of a client, before they are formatted. -/
structure Shown where
  user : List Char
  endpoint : List Char
  connSec : Nat
  bytesRx : Nat
  bytesTx : Nat
  paths : List PathLine
  deriving DecidableEq

/-- What `run_status` prints: an error, or the number of clients with the clients. -/
inductive Output where
  | error (msg : List Char)
  | status (nClients : Int) (clients : List Shown)
  deriving DecidableEq

/-- An empty text is printed as `(unknown)`. -/
def orUnknown (s : List Char) : List Char := if s = [] then "(unknown)".toList else s

/-- The position after a comma, if there is one, and blanks. -/
def advance : List Char → List Char
  | ',' :: cs => skipWs cs
  | cs => skipWs cs

/-- The object that begins at a position, and ends before another one. -/
def upTo (p stop : List Char) : List Char := p.take (p.length - stop.length)

section Loop

variable {σ : Type}

/-- The loop over the objects of an array. The body has the object, and whether the loop goes on
    right behind it. -/
def listLoop (body : σ → List Char → Nat → Option (σ × Bool)) : σ → List Char → Nat → Option σ
  | _, _, 0 => none
  | s, [], _ + 1 => some s
  | s, c :: cs, fuel + 1 =>
    if c = ']' then some s
    else if c = '{' then
      match skipJsonValue (c :: cs) with
      | none => some s
      | some stop =>
        (body s (upTo (c :: cs) stop) fuel).bind fun r =>
          listLoop body r.1 (if r.2 then stop else advance stop) fuel
    else listLoop body s (advance (c :: cs)) fuel

end Loop

/-- The loop over an array, if the value is one. -/
def inArray {α : Type} (loop : List Char → Nat → Option (List α)) (v : Option (List Char)) (fuel : Nat) :
    Option (List α) :=
  match v with
  | some ('[' :: cs) => loop (skipWs cs) fuel
  | _ => some []

/-- The body of the loop over the paths, which copies an object into 512 bytes. -/
def pathBody (lines : List PathLine) (obj : List Char) : List PathLine × Bool :=
  if 512 ≤ obj.length then (lines, true)
  else
    (lines ++ [{
      idx := lines.length
      srtt := readInt64 (findKey "srtt_ms".toList obj)
      minRtt := readInt64 (findKey "min_rtt_ms".toList obj)
      cwnd := toUInt64 (readInt64 (findKey "cwnd".toList obj))
      state := toInt (readInt64 (findKey "state".toList obj)) }], false)

/-- The loop of `print_client`. -/
def pathLoop : List PathLine → List Char → Nat → Option (List PathLine) :=
  listLoop fun lines obj _ => some (pathBody lines obj)

/-- `print_client` -/
def printClient (obj : List Char) (fuel : Nat) : Option Shown :=
  (inArray (pathLoop []) (findKey "paths".toList obj) fuel).map fun paths =>
    { user := orUnknown (((findKey "user".toList obj).map (stringBuf · 64)).getD [])
      endpoint := orUnknown (((findKey "endpoint".toList obj).map (stringBuf · 64)).getD [])
      connSec := toUInt64 (readInt64 (findKey "connected_sec".toList obj))
      bytesRx := toUInt64 (readInt64 (findKey "bytes_rx".toList obj))
      bytesTx := toUInt64 (readInt64 (findKey "bytes_tx".toList obj))
      paths }

/-- The loop of `run_status`. -/
def clientLoop : List Shown → List Char → Nat → Option (List Shown) :=
  listLoop fun shown obj fuel => (printClient obj fuel).map fun c => (shown ++ [c], false)

/-- The message of an error. What is read of one that has no closing quote stands over the default. -/
def errmsg (buf : List Char) : List Char :=
  let default := "unknown error".toList
  match findKey "error".toList buf with
  | none => default
  | some v => (readString v 128).getD (stringBuf v 128 ++ default.drop (stringBuf v 128).length)

/-- The response is not an error. -/
def isOk (buf : List Char) : Bool := (findKey "ok".toList buf).any fun v => "true".toList <+: v

/-- `run_status`, from the bytes of the response to `get_status` -/
def runStatus (wire : List Char) (fuel : Nat) : Option Output :=
  let buf := ctrlQuery wire
  if isOk buf then
    (inArray (clientLoop []) (findKey "clients".toList buf) fuel).map
      (.status (toInt (readInt64 (findKey "n_clients".toList buf))))
  else some (.error (errmsg buf))

/-! ## Rounds -/

/-- The rest is shorter than the text. -/
theorem bracketLoop_length {opening closing : Char} {depth : Nat} {inStr : Bool} {s stop : List Char}
    (h : bracketLoop opening closing depth inStr s = some stop) : stop.length < s.length := by
  fun_induction bracketLoop opening closing depth inStr s with
  | case1 => cases h
  | case2 c cs c' ih => exact Nat.lt_succ_of_lt (Nat.lt_succ_of_lt (ih h))
  | case3 _ c cs _ ih => exact Nat.lt_succ_of_lt (ih h)
  | case4 c cs ih => exact Nat.lt_succ_of_lt (ih h)
  | case5 c cs _ ih => exact Nat.lt_succ_of_lt (ih h)
  | case6 c cs =>
    cases h
    exact Nat.lt_succ_self _
  | case7 _ cs _ _ _ ih => exact Nat.lt_succ_of_lt (ih h)
  | case8 _ c cs _ _ _ ih => exact Nat.lt_succ_of_lt (ih h)

theorem skipJsonValue_brace (cs : List Char) : skipJsonValue ('{' :: cs) = bracketLoop '{' '}' 1 false cs := rfl

theorem length_skipJsonValue {cs stop : List Char} (h : skipJsonValue ('{' :: cs) = some stop) :
    stop.length < ('{' :: cs).length := Nat.lt_succ_of_lt (bracketLoop_length h)

theorem skipWs_of_not {c : Char} (h : isSpace c = false) (cs : List Char) : skipWs (c :: cs) = c :: cs :=
  List.dropWhile_cons_of_neg (by simp [h])

theorem skipWs_of_space {c : Char} (h : isSpace c = true) (cs : List Char) : skipWs (c :: cs) = skipWs cs :=
  List.dropWhile_cons_of_pos h

theorem advance_of_ne {c : Char} (h : c ≠ ',') (cs : List Char) : advance (c :: cs) = skipWs (c :: cs) := by
  unfold advance
  split
  · rename_i heq
    exact absurd (List.cons.inj heq).1 h
  · rfl

section Rounds

variable {σ : Type} {body : σ → List Char → Nat → Option (σ × Bool)} {s out : σ} {c : Char} {cs p stop : List Char}

theorem stable_listLoop (hbody : ∀ s obj, Stable (body s obj)) (s : σ) (p : List Char) : Stable (listLoop body s p) := by
  intro n r hr
  induction n generalizing s p with
  | zero => cases p <;> cases hr
  | succ n ih =>
    cases p with
    | nil => exact hr
    | cons c cs =>
      rw [listLoop] at hr ⊢
      split_ifs at hr ⊢ with hclose hbrace
      · exact hr
      · cases hskip : skipJsonValue (c :: cs) with
        | none =>
          rw [hskip] at hr
          exact hr
        | some stop =>
          rw [hskip] at hr
          obtain ⟨b, hb, hr⟩ := Option.bind_eq_some_iff.1 hr
          exact Option.bind_eq_some_iff.2 ⟨b, hbody _ _ n b hb, ih _ _ hr⟩
      · exact ih _ _ hr

theorem yields_nil : Yields (listLoop body s []) out ↔ out = s := (yields_succ rfl fun _ => rfl).trans yields_some

theorem yields_close : Yields (listLoop body s (']' :: cs)) out ↔ out = s := (yields_succ rfl fun _ => rfl).trans yields_some

/-- The loop breaks at an object that does not end. -/
theorem yields_cut (h : skipJsonValue ('{' :: cs) = none) : Yields (listLoop body s ('{' :: cs)) out ↔ out = s := by
  refine (yields_succ rfl fun n => ?_).trans yields_some
  rw [listLoop, if_neg (by decide), if_pos rfl, h]

theorem yields_object (hbody : ∀ s obj, Stable (body s obj)) (h : skipJsonValue ('{' :: cs) = some stop) :
    Yields (listLoop body s ('{' :: cs)) out ↔
      ∃ r, Yields (body s (upTo ('{' :: cs) stop)) r ∧
        Yields (listLoop body r.1 (if r.2 then stop else advance stop)) out := by
  rw [← yields_bind (hbody _ _) fun r => stable_listLoop hbody r.1 _]
  refine yields_succ rfl fun n => ?_
  rw [listLoop, if_neg (by decide), if_pos rfl, h]

theorem yields_other (hclose : c ≠ ']') (hbrace : c ≠ '{') :
    Yields (listLoop body s (c :: cs)) out ↔ Yields (listLoop body s (advance (c :: cs))) out := by
  refine yields_succ rfl fun n => ?_
  rw [listLoop, if_neg hclose, if_neg hbrace]

/-- A round that would only move on may be left out. -/
theorem yields_advance : Yields (listLoop body s (advance p)) out ↔ Yields (listLoop body s p) out := by
  cases p with
  | nil => rfl
  | cons c cs =>
    by_cases hclose : c = ']'
    · subst hclose
      rfl
    by_cases hbrace : c = '{'
    · subst hbrace
      rfl
    exact (yields_other hclose hbrace).symm

theorem yields_skipWs : Yields (listLoop body s (skipWs p)) out ↔ Yields (listLoop body s p) out := by
  cases p with
  | nil => rfl
  | cons c cs =>
    by_cases hcomma : c = ','
    · subst hcomma
      rfl
    · rw [← advance_of_ne hcomma, yields_advance]

theorem yields_comma : Yields (listLoop body s (',' :: cs)) out ↔ Yields (listLoop body s cs) out :=
  (yields_other (by decide) (by decide)).trans yields_skipWs

theorem yields_blank (hspace : isSpace c = true) :
    Yields (listLoop body s (c :: cs)) out ↔ Yields (listLoop body s cs) out := by
  rw [← yields_skipWs, skipWs_of_space hspace, yields_skipWs]

/-- On anything else the position stays where it is, for ever. -/
theorem not_yields_stray (hclose : c ≠ ']') (hbrace : c ≠ '{') (hcomma : c ≠ ',') (hspace : isSpace c = false) :
    ¬Yields (listLoop body s (c :: cs)) out := by
  rintro ⟨n, hn⟩
  induction n with
  | zero => cases hn
  | succ n ih =>
    rw [listLoop, if_neg hclose, if_neg hbrace, advance_of_ne hcomma, skipWs_of_not hspace] at hn
    exact ih hn

/-- The text of an array, from behind its bracket or from one of its elements on, in which the
    rounds of the loop begin at objects, commas and blanks only; `ok` holds of the objects. -/
inductive Listed (ok : List Char → Prop) : List Char → Prop
  | done : Listed ok []
  | close (cs : List Char) : Listed ok (']' :: cs)
  | comma {cs : List Char} (h : Listed ok cs) : Listed ok (',' :: cs)
  | blank {c : Char} {cs : List Char} (hspace : isSpace c = true) (h : Listed ok cs) : Listed ok (c :: cs)
  | cut {cs : List Char} (hskip : skipJsonValue ('{' :: cs) = none) : Listed ok ('{' :: cs)
  | object {cs stop : List Char} (hskip : skipJsonValue ('{' :: cs) = some stop) (hok : ok (upTo ('{' :: cs) stop))
      (h : Listed ok stop) : Listed ok ('{' :: cs)

/-- The loop ends exactly on these texts. -/
theorem listLoop_ends_iff (hbody : ∀ s obj, Stable (body s obj)) {ok : List Char → Prop}
    (hok : ∀ s obj, (∃ r, Yields (body s obj) r) ↔ ok obj) (s : σ) (p : List Char) :
    (∃ out, Yields (listLoop body s p) out) ↔ Listed ok p := by
  have hagain (r : σ × Bool) (stop : List Char) (out : σ) :
      Yields (listLoop body r.1 (if r.2 then stop else advance stop)) out ↔ Yields (listLoop body r.1 stop) out := by
    split_ifs
    · rfl
    · exact yields_advance
  constructor
  · -- what follows a comma, a blank or an object is shorter
    induction hlen : p.length using Nat.strongRecOn generalizing s p with
    | ind n ih =>
      subst hlen
      rintro ⟨out, h⟩
      cases p with
      | nil => exact .done
      | cons c cs =>
        have hcs : cs.length < (c :: cs).length := Nat.lt_succ_self _
        by_cases hclose : c = ']'
        · exact hclose ▸ .close cs
        by_cases hbrace : c = '{'
        · subst hbrace
          cases hskip : skipJsonValue ('{' :: cs) with
          | none => exact .cut hskip
          | some stop =>
            obtain ⟨r, hr, h⟩ := (yields_object hbody hskip).1 h
            exact .object hskip ((hok s _).1 ⟨r, hr⟩)
              (ih _ (length_skipJsonValue hskip) r.1 stop rfl ⟨out, (hagain r stop out).1 h⟩)
        by_cases hcomma : c = ','
        · subst hcomma
          exact .comma (ih _ hcs s cs rfl ⟨out, yields_comma.1 h⟩)
        cases hspace : isSpace c with
        | true => exact .blank hspace (ih _ hcs s cs rfl ⟨out, (yields_blank hspace).1 h⟩)
        | false => exact absurd h (not_yields_stray hclose hbrace hcomma hspace)
  · intro h
    induction h generalizing s with
    | done => exact ⟨s, yields_nil.2 rfl⟩
    | close cs => exact ⟨s, yields_close.2 rfl⟩
    | comma _ ih =>
      obtain ⟨out, h⟩ := ih s
      exact ⟨out, yields_comma.2 h⟩
    | blank hspace _ ih =>
      obtain ⟨out, h⟩ := ih s
      exact ⟨out, (yields_blank hspace).2 h⟩
    | cut hskip => exact ⟨s, (yields_cut hskip).2 rfl⟩
    | object hskip hobj _ ih =>
      obtain ⟨r, hr⟩ := (hok s _).2 hobj
      obtain ⟨out, h⟩ := ih r.1
      exact ⟨out, (yields_object hbody hskip).2 ⟨r, hr, (hagain r _ out).2 h⟩⟩

theorem inArray_ends_iff {α : Type} {body : List α → List Char → Nat → Option (List α × Bool)}
    (hbody : ∀ s obj, Stable (body s obj)) {ok : List Char → Prop} (hok : ∀ s obj, (∃ r, Yields (body s obj) r) ↔ ok obj)
    (v : Option (List Char)) :
    (∃ out, Yields (inArray (listLoop body []) v) out) ↔ ∀ cs, v = some ('[' :: cs) → Listed ok cs := by
  by_cases harray : ∃ cs, v = some ('[' :: cs)
  · obtain ⟨cs, rfl⟩ := harray
    have hws : (∃ out, Yields (inArray (listLoop body []) (some ('[' :: cs))) out) ↔
        ∃ out, Yields (listLoop body [] cs) out := exists_congr fun out => yields_skipWs
    rw [hws, listLoop_ends_iff hbody hok]
    exact ⟨fun h cs' heq => (List.cons.inj (Option.some.inj heq)).2 ▸ h, fun h => h cs rfl⟩
  · refine iff_of_true ⟨[], 0, ?_⟩ fun cs heq => absurd ⟨cs, heq⟩ harray
    unfold inArray
    split
    · exact absurd ⟨_, rfl⟩ harray
    · rfl

theorem stable_inArray {α : Type} {loop : List Char → Nat → Option (List α)} (hloop : ∀ p, Stable (loop p))
    (v : Option (List Char)) : Stable (inArray loop v) := by
  unfold inArray
  split
  · exact hloop _
  · exact stable_some _

end Rounds

/-! ## The end -/

/-- The loop over the paths of a client ends. -/
def PathsListed (obj : List Char) : Prop :=
  ∀ cs, findKey "paths".toList obj = some ('[' :: cs) → Listed (fun _ => True) cs

/-- No round of a loop begins at a character on which it does nothing. -/
def NoStray (buf : List Char) : Prop :=
  isOk buf = true → ∀ cs, findKey "clients".toList buf = some ('[' :: cs) → Listed PathsListed cs

theorem exists_yields_map {α β : Type} {f : Nat → Option α} {k : α → β} :
    (∃ r, Yields (fun n => (f n).map k) r) ↔ ∃ a, Yields f a := by
  constructor
  · rintro ⟨r, hr⟩
    obtain ⟨a, ha, -⟩ := yields_map.1 hr
    exact ⟨a, ha⟩
  · rintro ⟨a, ha⟩
    exact ⟨_, yields_map.2 ⟨a, ha, rfl⟩⟩

theorem stable_printClient (obj : List Char) : Stable (printClient obj) :=
  (stable_inArray (fun p => stable_listLoop (fun _ _ => stable_some _) [] p) _).map _

theorem stable_clientBody (shown : List Shown) (obj : List Char) :
    Stable fun fuel => (printClient obj fuel).map fun c => (shown ++ [c], false) :=
  (stable_printClient obj).map _

/-- The output for a client ends exactly if no round of its loop begins at a stray character. -/
theorem printClient_ends_iff (obj : List Char) : (∃ c, Yields (printClient obj) c) ↔ PathsListed obj := by
  refine exists_yields_map.trans (inArray_ends_iff (fun _ _ => stable_some _) (fun _ _ => ?_) _)
  exact iff_of_true ⟨_, yields_some.2 rfl⟩ trivial

/-- The display ends exactly if no round of its loops begins at a stray character. -/
theorem ends_iff (wire : List Char) : (∃ out, Yields (runStatus wire) out) ↔ NoStray (ctrlQuery wire) := by
  cases hok : isOk (ctrlQuery wire) with
  | true =>
    have hrun : runStatus wire = fun fuel => (inArray (clientLoop []) (findKey "clients".toList (ctrlQuery wire)) fuel).map
        (.status (toInt (readInt64 (findKey "n_clients".toList (ctrlQuery wire))))) := by
      funext fuel
      exact if_pos hok
    have hbody : ∀ (shown : List Shown) obj, (∃ r, Yields (fun fuel => (printClient obj fuel).map fun c =>
        (shown ++ [c], false)) r) ↔ PathsListed obj :=
      fun _ obj => exists_yields_map.trans (printClient_ends_iff obj)
    rw [hrun, NoStray, hok]
    refine exists_yields_map.trans ((inArray_ends_iff stable_clientBody hbody _).trans ?_)
    exact ⟨fun h _ => h, fun h => h rfl⟩
  | false =>
    have hrun : runStatus wire = fun _ => some (.error (errmsg (ctrlQuery wire))) := by
      funext fuel
      exact if_neg (by simp [hok])
    rw [hrun, NoStray, hok]
    exact iff_of_true ⟨_, yields_some.2 rfl⟩ fun h => absurd h (by decide)

end Mqvpn.Status
