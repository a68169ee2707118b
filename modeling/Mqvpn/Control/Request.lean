import Mqvpn.ConfigFile.Lookup
import Mqvpn.Lib.Runs
import Mathlib.Data.List.TakeWhile

/-!
# Requests on the control socket

`ctrl_on_read` collects the bytes of a connection until they are a request, and hands them to
`dispatch`, which looks for the command and its parameters. The bytes that are handed over
are all that were read, also those behind the first object.

* `request_append_iff`: what is looked up in an object and the text behind it is what is looked
  up in the object alone, if and only if nothing that the object lacks is found behind it;
* `framed_along`: under this condition, the request on a connection is that of the first object
  of its stream, wherever the stream is split;
* `not_framed`: a name that stands behind the object is taken for its parameter.
-/

namespace Mqvpn.Control

open Json JsonTree Text

/-! ## Parameters -/

/-- What a command reads of its parameters. -/
inductive Value where
  | text (s : List Char)
  | bit (b : Bool)
  | num (v : Int)
  deriving DecidableEq, Repr

/-- How a parameter is read. -/
inductive ParamType where
  /-- A string, in a buffer of this size. -/
  | string (size : Nat)
  /-- A string that is not empty. -/
  | name (size : Nat)
  /-- A string that may be missing. -/
  | optional (size : Nat)
  | flag
  | number

/-- The value of a parameter, from where its key was found; nothing if the command is refused. -/
def ParamType.read : ParamType → Option (List Char) → Option Value
  | .string size, v => (v.bind (readString · size)).map .text
  | .name size, v => ((v.bind (readString · size)).filter (· ≠ [])).map .text
  | .optional size, v => some (.text ((v.map (stringBuf · size)).getD []))
  | .flag, v => some (.bit (v.any fun s => s.head? = some 't' ∨ s.head? = some '1'))
  | .number, v => v.map fun s => .num (((strtol s).map Prod.fst).getD 0)

/-- The parameters of a command, in the order in which they are read; `cli`: whether the socket
    is that of a client. -/
def parameters (cli : Bool) (cmd : List Char) : List (List Char × ParamType) :=
  if cmd = "add_path".toList then if cli then [("iface".toList, .name 16), ("backup".toList, .flag)] else []
  else if cmd = "set_path_weight".toList then
    if cli then [("iface".toList, .name 16), ("weight".toList, .number)] else []
  else if cmd = "remove_path".toList then if cli then [("iface".toList, .name 16)] else []
  else if cmd = "add_user".toList then
    [("name".toList, .string 64), ("key".toList, .string 256), ("fixed_ip".toList, .optional 20)]
  else if cmd = "set_user_fixed_ip".toList then [("name".toList, .string 64), ("fixed_ip".toList, .optional 20)]
  else if cmd = "remove_user".toList then [("name".toList, .string 64)]
  else if cmd = "get_fec_stats".toList then [("user".toList, .string 64)]
  else []

/-- The parameters up to the first one that is missing. -/
def readParams (find : List Char → Option (List Char)) : List (List Char × ParamType) → List (Option Value)
  | [] => []
  | (key, type) :: ps =>
    match type.read (find key) with
    | none => [none]
    | some v => some v :: readParams find ps

/-- What `dispatch` finds in a text. -/
structure Request where
  cmd : Option (List Char)
  params : List (Option Value)
  deriving DecidableEq

/-- The lookups of `dispatch`. -/
def request (cli : Bool) (req : List Char) : Request :=
  match (findKey "cmd".toList req).bind (readString · 32) with
  | none => ⟨none, []⟩
  | some cmd => ⟨some cmd, readParams (findKey · req) (parameters cli cmd)⟩

/-! ## The connection -/

/-- `CTRL_MAX_REQ` -/
def maxReq : Nat := 4096

/-- `ctrl_conn_t`, with the bytes of the stream that are still to be read, and the texts that
    were handed to `dispatch`. -/
structure Conn where
  req : List Char
  unread : List Char
  isOpen : Bool
  requests : List (List Char)

/-- A connection on which these bytes are sent. -/
def Conn.new (stream : List Char) : Conn := ⟨[], stream, true, []⟩

/-- What `ctrl_on_read` is called for, and what `read` returns in its loop. -/
inductive Event where
  | timeout
  /-- Bytes, this many more than one if there is room for them. -/
  | data (more : Nat)
  | eof
  | again
  | error

/-- The check after each read: an object is closed, or there is no object and a line is. -/
def complete (req : List Char) : Bool :=
  if (skipWs req).head? = some '{' then (objectEnd (skipWs req)).isSome else decide ('\n' ∈ req)

namespace Conn

variable (c : Conn)

/-- The string that `dispatch` gets. -/
def cString (req : List Char) : List Char := req.takeWhile (· ≠ '\x00')

/-- The end of `ctrl_on_read`: the request, the response, and the connection is closed. -/
def dispatch : Conn := { c with isOpen := false, requests := c.requests ++ [c.req] }

/-- How many bytes are read. -/
def count (more : Nat) : Nat := min (more + 1) (maxReq - c.req.length)

/-- The buffer and the stream after a read. -/
def read (more : Nat) : Conn :=
  { c with req := c.req ++ c.unread.take (c.count more), unread := c.unread.drop (c.count more) }

/-- A turn of the loop of `ctrl_on_read`. -/
def onRead : Event → Conn
  | .timeout | .error => { c with isOpen := false }
  | .again => c
  | .eof => if c.unread = [] then c.dispatch else c
  | .data more =>
    if c.unread = [] then c
    else if complete (c.read more).req ∨ maxReq ≤ (c.read more).req.length then (c.read more).dispatch
    else c.read more

/-- A turn, on a connection that is open. -/
def step (e : Event) : Conn := if c.isOpen then c.onRead e else c

def run (stream : List Char) (events : List Event) : Conn := events.foldl step (.new stream)

end Conn

/-! ## Lookups in a text that goes on -/

variable {cli : Bool} {key : List Char}

theorem lookup_map_snd {l : List (List Char × List Char)} (f : List Char → List Char) :
    (l.map fun m => (m.1, f m.2)).lookup key = (l.lookup key).map f := by
  induction l with
  | nil => rfl
  | cons m l ih =>
    rw [List.map_cons, List.lookup_cons, List.lookup_cons, ih]
    cases key == m.1 <;> rfl

/-- The members are the same, whatever follows, but for the texts that go on there. -/
theorem named_append {i : Ix} (t : Syn i) (rest extra : List Char) :
    t.named (rest ++ extra) = (t.named rest).map fun m => (m.1, m.2 ++ extra) := by
  induction t generalizing rest with
  | bare t => rfl
  | string s => rfl
  | array ws es ih => exact ih (']' :: rest)
  | object ws ms ih => exact ih ('}' :: rest)
  | noElems => rfl
  | elem before v after es ihv ihes =>
    rw [Syn.named, Syn.named, List.map_append, ihes, ← ihv]
    simp only [List.append_assoc]
  | noMembers => rfl
  | member before name beforeColon afterColon v after ms ihv ihms =>
    rw [Syn.named, Syn.named, List.map_cons, List.map_append, ihms, ← ihv]
    simp only [List.append_assoc]

/-- What follows the name of a member: its value, and a brace behind it. -/
theorem value_of_mem_named {i : Ix} (t : Syn i) {rest : List Char} (hrest : '}' ∈ rest)
    {m : List Char × List Char} (h : m ∈ t.named rest) :
    ∃ (v : Syn .value) (tail : List Char), m.2 = v.text ++ tail ∧ '}' ∈ tail := by
  induction t generalizing rest with
  | bare t => cases h
  | string s => cases h
  | array ws es ih => exact ih (List.mem_cons_of_mem _ hrest) h
  | object ws ms ih => exact ih (List.mem_cons_of_mem _ hrest) h
  | noElems => cases h
  | elem before v after es ihv ihes =>
    rcases List.mem_append.1 h with h | h
    · exact ihv (List.mem_append_right _ hrest) h
    · exact ihes hrest h
  | noMembers => cases h
  | member before name beforeColon afterColon v after ms ihv ihms =>
    rcases List.mem_cons.1 h with rfl | h
    · exact ⟨v, _, rfl, List.mem_append_right _ hrest⟩
    rcases List.mem_append.1 h with h | h
    · exact ihv (List.mem_append_right _ hrest) h
    · exact ihms hrest h

/-! ## Reading values -/

theorem digits_append {s : List Char} (h : '}' ∈ s) (acc : Nat) (extra : List Char) :
    digits acc (s ++ extra) = ((digits acc s).1, (digits acc s).2 ++ extra) := by
  induction s generalizing acc with
  | nil => cases h
  | cons c s ih =>
    rw [List.cons_append, digits, digits]
    cases hc : digit c with
    | none => rfl
    | some d =>
      refine ih ?_ _
      rcases List.mem_cons.1 h with rfl | h
      · exact (Option.some_ne_none d (show some d = none from hc.symm)).elim
      · exact h

theorem sign_append {s : List Char} (h : '}' ∈ s) (extra : List Char) :
    sign (s ++ extra) = ((sign s).1, (sign s).2 ++ extra) ∧ '}' ∈ (sign s).2 := by
  cases s with
  | nil => cases h
  | cons c s =>
    by_cases hplus : c = '+'
    · subst hplus
      exact ⟨rfl, (List.mem_cons.1 h).resolve_left (by decide)⟩
    by_cases hminus : c = '-'
    · subst hminus
      exact ⟨rfl, (List.mem_cons.1 h).resolve_left (by decide)⟩
    · have hsign (t : List Char) : sign (c :: t) = (1, c :: t) := by
        rw [sign]
        · exact fun _ heq => hplus (List.cons.inj heq).1
        · exact fun _ heq => hminus (List.cons.inj heq).1
      rw [List.cons_append, hsign, hsign]
      exact ⟨rfl, h⟩

/-- A number ends before the brace. -/
theorem strtol_append {s : List Char} (h : '}' ∈ s) (extra : List Char) :
    (strtol (s ++ extra)).map Prod.fst = (strtol s).map Prod.fst := by
  have hws : (s ++ extra).dropWhile isSpace = s.dropWhile isSpace ++ extra ∧ '}' ∈ s.dropWhile isSpace := by
    induction s with
    | nil => cases h
    | cons c s ih =>
      by_cases hc : isSpace c = true
      · have hne : c ≠ '}' := by
          rintro rfl
          exact absurd hc (by decide)
        rw [List.cons_append, List.dropWhile_cons_of_pos hc, List.dropWhile_cons_of_pos hc]
        exact ih ((List.mem_cons.1 h).resolve_left hne.symm)
      · rw [List.cons_append, List.dropWhile_cons_of_neg hc, List.dropWhile_cons_of_neg hc]
        exact ⟨rfl, h⟩
  obtain ⟨hws, hmem⟩ := hws
  obtain ⟨hsign, hmem⟩ := sign_append hmem extra
  rw [strtol, strtol, hws, hsign]
  dsimp only
  cases hcs : (sign (s.dropWhile isSpace)).2 with
  | nil =>
    rw [hcs] at hmem
    cases hmem
  | cons c cs =>
    dsimp only [List.cons_append]
    split_ifs
    · rfl
    · rw [← List.cons_append, digits_append (hcs ▸ hmem)]
      rfl

/-- Reading a value does not go beyond it. -/
theorem readString_value (v : Syn .value) (tail : List Char) (n : Nat) :
    readString (v.text ++ tail) n = readString v.text n ∧ stringBuf (v.text ++ tail) n = stringBuf v.text n := by
  cases v with
  | bare t =>
    obtain ⟨c, cs, h⟩ := List.exists_cons_of_ne_nil t.ne_nil
    have hquote : c ≠ '"' := fun heq => quote_notMem_bare t (h ▸ heq ▸ List.mem_cons_self)
    have hnone (s : List Char) : readString (c :: s) n = none ∧ stringBuf (c :: s) n = [] := by
      rw [readString, stringBuf]
      · exact ⟨rfl, rfl⟩
      · exact fun _ heq => hquote (List.cons.inj heq).1
      · exact fun _ heq => hquote (List.cons.inj heq).1
    rw [Syn.text, h, List.cons_append, (hnone _).1, (hnone _).2, (hnone _).1, (hnone _).2]
    exact ⟨rfl, rfl⟩
  | string s =>
    rw [Syn.text, List.cons_append, List.append_assoc, List.singleton_append, readString, readString, stringBuf,
      stringBuf, literal_body s.body, literal_body s.body]
    exact ⟨rfl, rfl⟩
  | array ws es => exact ⟨rfl, rfl⟩
  | object ws ms => exact ⟨rfl, rfl⟩

theorem read_append (type : ParamType) (v : Syn .value) {tail : List Char} (h : '}' ∈ tail) (extra : List Char) :
    type.read (some (v.text ++ tail ++ extra)) = type.read (some (v.text ++ tail)) := by
  have hstring (n : Nat) := readString_value v tail n
  have hstring' (n : Nat) := readString_value v (tail ++ extra) n
  have hhead : (v.text ++ (tail ++ extra)).head? = (v.text ++ tail).head? := by
    obtain ⟨c, cs, hv, -⟩ := value_starts v
    rw [hv]
    rfl
  cases type with
  | string size =>
    rw [List.append_assoc, ParamType.read, ParamType.read, Option.bind_some, Option.bind_some, (hstring' size).1,
      (hstring size).1]
  | name size =>
    rw [List.append_assoc, ParamType.read, ParamType.read, Option.bind_some, Option.bind_some, (hstring' size).1,
      (hstring size).1]
  | optional size =>
    rw [List.append_assoc, ParamType.read, ParamType.read, Option.map_some, Option.map_some, (hstring' size).2,
      (hstring size).2]
  | flag => rw [List.append_assoc, ParamType.read, ParamType.read, Option.any_some, Option.any_some, hhead]
  | number =>
    rw [ParamType.read, ParamType.read, Option.map_some, Option.map_some, strtol_append (List.mem_append_right _ h)]

/-! ## An object and what is behind it -/

section

variable (before ws : Blank) (ms : Syn .members) (extra : List Char)

theorem findKey_object_self : findKey key (Syn.object ws ms).text = (ms.named ['}']).lookup key := by
  have h := findKey_object_text ws ms key []
  rw [List.append_nil, findKey, Option.or_none] at h
  exact h

/-- Where the object has the key, the text behind it is not looked at. -/
theorem findKey_append_extra :
    findKey key (before.chars ++ (Syn.object ws ms).text ++ extra) =
      ((findKey key (Syn.object ws ms).text).map (· ++ extra)).or (findKey key extra) := by
  rw [List.append_assoc, findKey_append (quote_notMem_blank before), findKey_object_text, findKey_object_self]
  have hnamed : (Syn.object ws ms).named extra = (ms.named ['}']).map fun m => (m.1, m.2 ++ extra) :=
    named_append ms ['}'] extra
  rw [hnamed, lookup_map_snd (· ++ extra)]

/-- A parameter that the object has is read from it. -/
theorem read_findKey (type : ParamType) (key : List Char) :
    type.read (findKey key (before.chars ++ (Syn.object ws ms).text ++ extra)) =
      if findKey key (Syn.object ws ms).text = none then type.read (findKey key extra)
      else type.read (findKey key (Syn.object ws ms).text) := by
  rw [findKey_append_extra]
  cases hfind : findKey key (Syn.object ws ms).text with
  | none => rfl
  | some p =>
    rw [findKey_object_self] at hfind
    obtain ⟨l₁, l₂, hl, -⟩ := List.lookup_eq_some_iff.1 hfind
    have hmem : (key, p) ∈ ms.named ['}'] := hl ▸ List.mem_append_right _ List.mem_cons_self
    obtain ⟨v, tail, hp, htail⟩ := value_of_mem_named ms List.mem_cons_self hmem
    dsimp only at hp
    rw [if_neg (by simp), Option.map_some, Option.some_or, hp]
    exact read_append type v htail extra

end

/-- The parameters up to the first one that is missing. -/
def reached (find : List Char → Option (List Char)) : List (List Char × ParamType) → List (List Char × ParamType)
  | [] => []
  | p :: ps => p :: if p.2.read (find p.1) = none then [] else reached find ps

/-- What `dispatch` looks up in a text. -/
def lookups (cli : Bool) (req : List Char) : List (List Char × ParamType) :=
  ("cmd".toList, .string 32) ::
    match (findKey "cmd".toList req).bind (readString · 32) with
    | none => []
    | some cmd => reached (findKey · req) (parameters cli cmd)

/-- What is looked up in the object without being there is not found in the text behind it,
    either. -/
def Silent (cli : Bool) (obj extra : List Char) : Prop :=
  ∀ p ∈ lookups cli obj, findKey p.1 obj = none → p.2.read (findKey p.1 extra) = p.2.read none

theorem readParams_iff (find find' findExtra : List Char → Option (List Char)) {ps : List (List Char × ParamType)}
    (h : ∀ p ∈ ps, p.2.read (find' p.1) = if find p.1 = none then p.2.read (findExtra p.1) else p.2.read (find p.1)) :
    readParams find' ps = readParams find ps ↔
      ∀ p ∈ reached find ps, find p.1 = none → p.2.read (findExtra p.1) = p.2.read none := by
  induction ps with
  | nil => exact ⟨fun _ _ hp => absurd hp List.not_mem_nil, fun _ => rfl⟩
  | cons p ps ih =>
    obtain ⟨hp, hps⟩ := List.forall_mem_cons.1 h
    obtain ⟨key, type⟩ := p
    dsimp only at hp
    have hself : type.read (find' key) = type.read (find key) ↔
        (find key = none → type.read (findExtra key) = type.read none) := by
      rw [hp]
      by_cases hfind : find key = none
      · rw [if_pos hfind, hfind]
        exact ⟨fun h _ => h, fun h => h rfl⟩
      · rw [if_neg hfind]
        exact ⟨fun _ h => absurd h hfind, fun _ => rfl⟩
    rw [readParams, readParams, reached, List.forall_mem_cons, ← hself]
    cases hread : type.read (find key) with
    | none =>
      dsimp only
      rw [if_pos rfl]
      cases type.read (find' key) with
      | none => exact ⟨fun _ => ⟨rfl, fun _ hp => absurd hp List.not_mem_nil⟩, fun _ => rfl⟩
      | some v => simp
    | some v =>
      dsimp only
      rw [if_neg (by simp), ← ih hps]
      cases type.read (find' key) with
      | none => simp
      | some v' => simp

/-- The request of an object and a text behind it is that of the object if and only if the text
    has nothing that the object lacks. -/
theorem request_append_iff (before ws : Blank) (ms : Syn .members) (extra : List Char) :
    request cli (before.chars ++ (Syn.object ws ms).text ++ extra) = request cli (Syn.object ws ms).text ↔
      Silent cli (Syn.object ws ms).text extra := by
  have hread (p : List Char × ParamType) := read_findKey before ws ms extra p.2 p.1
  have hcmd := hread ("cmd".toList, .string 32)
  have hparams (cmd : List Char) :
      readParams (findKey · (before.chars ++ (Syn.object ws ms).text ++ extra)) (parameters cli cmd) =
          readParams (findKey · (Syn.object ws ms).text) (parameters cli cmd) ↔
        ∀ p ∈ reached (findKey · (Syn.object ws ms).text) (parameters cli cmd),
          findKey p.1 (Syn.object ws ms).text = none → p.2.read (findKey p.1 extra) = p.2.read none :=
    readParams_iff (findKey · _) (findKey · _) (findKey · extra) fun p _ => hread p
  generalize (Syn.object ws ms).text = obj at hread hcmd hparams ⊢
  dsimp only [ParamType.read] at hcmd
  rw [Silent, lookups, List.forall_mem_cons, request, request]
  dsimp only [ParamType.read]
  by_cases hnone : findKey "cmd".toList obj = none
  · -- the object has no command
    rw [if_pos hnone] at hcmd
    rw [hnone, ← hcmd]
    cases (findKey "cmd".toList (before.chars ++ obj ++ extra)).bind (readString · 32) with
    | none => exact ⟨fun _ => ⟨fun _ => rfl, fun _ hp => absurd hp List.not_mem_nil⟩, fun _ => rfl⟩
    | some cmd => exact ⟨fun h => (nomatch congrArg Request.cmd h), fun h => (nomatch h.1 rfl)⟩
  · rw [if_neg hnone] at hcmd
    have hsame : (findKey "cmd".toList (before.chars ++ obj ++ extra)).bind (readString · 32) =
        (findKey "cmd".toList obj).bind (readString · 32) :=
      Option.map_injective (fun _ _ h => Value.text.inj h) hcmd
    rw [hsame]
    cases (findKey "cmd".toList obj).bind (readString · 32) with
    | none => exact ⟨fun _ => ⟨fun h => absurd h hnone, fun _ hp => absurd hp List.not_mem_nil⟩, fun _ => rfl⟩
    | some cmd =>
      dsimp only
      rw [Request.mk.injEq, hparams cmd]
      exact ⟨fun h => ⟨fun hn => absurd hn hnone, h.2⟩, fun h => ⟨rfl, h.2⟩⟩

/-! ## When a request is complete -/

section

variable {before ws : Blank} {ms : Syn .members} {rest : List Char}

/-- An object that is closed is closed whatever follows. -/
theorem objectEndLoop_append {depth : Nat} {inStr : Bool} {s stop : List Char}
    (h : objectEndLoop depth inStr s = some stop) (extra : List Char) :
    objectEndLoop depth inStr (s ++ extra) = some (stop ++ extra) ∧ stop.head? = some '}' := by
  fun_induction objectEndLoop depth inStr s with
  | case1 => cases h
  | case2 depth c cs ih =>
    obtain ⟨heq, hhead⟩ := ih h
    rw [List.cons_append, List.cons_append, objectEndLoop]
    exact ⟨heq, hhead⟩
  | case3 depth c cs hslash ih =>
    obtain ⟨heq, hhead⟩ := ih h
    rw [List.cons_append, objectEndLoop]
    · exact ⟨heq, hhead⟩
    · rintro d ds rfl hcs
      -- a backslash at the end closes nothing
      cases cs with
      | nil => cases h
      | cons e es => exact hslash e es rfl rfl
  | case4 depth cs ih =>
    obtain ⟨heq, hhead⟩ := ih h
    rw [List.cons_append, objectEndLoop, if_pos rfl]
    exact ⟨heq, hhead⟩
  | case5 depth cs hquote ih =>
    obtain ⟨heq, hhead⟩ := ih h
    rw [List.cons_append, objectEndLoop, if_neg hquote, if_pos rfl]
    exact ⟨heq, hhead⟩
  | case6 cs hquote hopen =>
    cases h
    rw [List.cons_append, objectEndLoop, if_neg hquote, if_neg hopen, if_pos rfl, if_pos rfl]
    exact ⟨rfl, rfl⟩
  | case7 depth cs hquote hopen hdepth ih =>
    obtain ⟨heq, hhead⟩ := ih h
    rw [List.cons_append, objectEndLoop, if_neg hquote, if_neg hopen, if_pos rfl, if_neg hdepth]
    exact ⟨heq, hhead⟩
  | case8 depth c cs hquote hopen hclose ih =>
    obtain ⟨heq, hhead⟩ := ih h
    rw [List.cons_append, objectEndLoop, if_neg hquote, if_neg hopen, if_neg hclose]
    exact ⟨heq, hhead⟩

/-- An object without its end is not closed. -/
theorem objectEnd_front {front more : List Char} (h : front ++ more = (Syn.object ws ms).text) (hmore : more ≠ []) :
    objectEnd front = none := by
  by_contra hsome
  obtain ⟨stop, hstop⟩ := Option.ne_none_iff_exists'.1 hsome
  have hend := objectEnd_text ws ms []
  rw [List.append_nil, ← h] at hend
  unfold objectEnd at hstop hend
  split_ifs at hstop
  split_ifs at hend
  obtain ⟨heq, hhead⟩ := objectEndLoop_append hstop more
  rw [heq, Option.some.injEq] at hend
  cases stop with
  | nil => cases hhead
  | cons c stop =>
    rw [List.cons_append, List.cons.injEq] at hend
    exact hmore (List.append_eq_nil_iff.1 hend.2).2

theorem skipWs_brace (s : List Char) : skipWs ('{' :: s) = '{' :: s := List.dropWhile_cons_of_neg (by decide)

/-- Before the end of the object there is no request, unless a line ends before the object. -/
theorem complete_eq_false {req unread : List Char} (h : req ++ unread = before.chars ++ (Syn.object ws ms).text ++ rest)
    (hlength : req.length < (before.chars ++ (Syn.object ws ms).text).length)
    (hline : skipWs req = [] → '\n' ∉ req) : complete req = false := by
  have hprefix : req <+: before.chars ++ (Syn.object ws ms).text :=
    List.prefix_of_prefix_length_le ⟨unread, h⟩ (List.prefix_append _ _) hlength.le
  by_cases hbefore : req.length ≤ before.chars.length
  · -- only blanks
    obtain ⟨more, hmore⟩ : req <+: before.chars := List.prefix_of_prefix_length_le hprefix (List.prefix_append _ _) hbefore
    have hblank : skipWs req = [] := by
      rw [skipWs, List.dropWhile_eq_nil_iff]
      exact fun c hc => isSpace_of_blank (before.blank c (hmore ▸ List.mem_append_left _ hc))
    rw [complete, hblank, if_neg (by simp)]
    exact decide_eq_false (hline hblank)
  · obtain ⟨front, rfl⟩ : before.chars <+: req :=
      List.prefix_of_prefix_length_le (List.prefix_append _ _) hprefix (Nat.le_of_not_le hbefore)
    obtain ⟨more, hmore⟩ := (List.prefix_append_right_inj _).1 hprefix
    have hne : more ≠ [] := by
      rintro rfl
      rw [List.append_nil] at hmore
      rw [hmore] at hlength
      exact lt_irrefl _ hlength
    have hhead : ∃ cs, front = '{' :: cs := by
      cases front with
      | nil => exact absurd (by rw [List.append_nil]) hbefore
      | cons c cs => exact ⟨cs, by rw [(List.cons.inj hmore).1]⟩
    obtain ⟨cs, rfl⟩ := hhead
    rw [complete, skipWs_blank, skipWs_brace, if_pos (show ('{' :: cs).head? = some '{' from rfl), objectEnd_front hmore hne]
    rfl

/-! ## Texts without zeros -/

theorem nul_notMem_body {raw : List Char} (h : isBody raw = true) : '\x00' ∉ raw := by
  have hhex {c : Char} (h : isHex c = true) : '\x00' ≠ c := by
    rintro rfl
    exact absurd h (by decide)
  induction raw using isBody.induct with
  | case1 => exact List.not_mem_nil
  | case2 a b c d cs ih =>
    simp only [isBody, Bool.and_eq_true] at h
    obtain ⟨⟨⟨⟨ha, hb⟩, hc⟩, hd⟩, hcs⟩ := h
    simp [hhex ha, hhex hb, hhex hc, hhex hd, ih hcs]
  | case3 e cs hu ih =>
    rw [isBody, Bool.and_eq_true] at h
    · have he : '\x00' ≠ e := by
        rintro rfl
        exact absurd h.1 (by decide)
      simp [he, ih h.2]
    · exact hu
  | case4 c cs hu he ih =>
    rw [isBody] at h
    · simp only [Bool.and_eq_true, decide_eq_true_eq] at h
      obtain ⟨⟨-, hcontrol⟩, hcs⟩ := h
      have hc : '\x00' ≠ c := by
        rintro rfl
        exact absurd hcontrol (by decide)
      simp [hc, ih hcs]
    · exact hu
    · exact he

theorem nul_notMem_blank (ws : Blank) : '\x00' ∉ ws.chars := fun h => absurd (ws.blank _ h) (by decide)

theorem nul_notMem_text {i : Ix} (t : Syn i) : '\x00' ∉ t.text := by
  have hsep {i : Ix} (t : Syn i) : '\x00' ∉ t.sep := by cases t <;> simp [Syn.sep]
  induction t with
  | bare t => exact fun h => absurd (t.bare _ h) (by decide)
  | string s => simp [Syn.text, nul_notMem_body s.body]
  | array ws es ih => simp [Syn.text, nul_notMem_blank, ih]
  | object ws ms ih => simp [Syn.text, nul_notMem_blank, ih]
  | noElems => exact List.not_mem_nil
  | elem before v after es ihv ihes => simp [Syn.text, nul_notMem_blank, hsep, ihv, ihes]
  | noMembers => exact List.not_mem_nil
  | member before name beforeColon afterColon v after ms ihv ihms =>
    simp [Syn.text, nul_notMem_blank, hsep, nul_notMem_body name.body, ihv, ihms]

/-- The string of a buffer that starts with an object. -/
theorem cString_object (extra : List Char) :
    Conn.cString (before.chars ++ (Syn.object ws ms).text ++ extra) =
      before.chars ++ (Syn.object ws ms).text ++ Conn.cString extra := by
  have hall : ∀ c ∈ before.chars ++ (Syn.object ws ms).text, decide (c ≠ '\x00') = true := by
    intro c hc
    refine decide_eq_true ?_
    rintro rfl
    rcases List.mem_append.1 hc with hc | hc
    · exact nul_notMem_blank before hc
    · exact nul_notMem_text _ hc
  rw [Conn.cString, List.takeWhile_append_of_pos hall, Conn.cString]

/-! ## Runs -/

/-- A connection is closed with its first request, whatever is sent on it. -/
theorem requests_length_le (stream : List Char) (events : List Event) : (Conn.run stream events).requests.length ≤ 1 := by
  have hstep : ∀ (c : Conn) (e : Event), (c.isOpen = true → c.requests = []) ∧ c.requests.length ≤ 1 →
      ((c.step e).isOpen = true → (c.step e).requests = []) ∧ (c.step e).requests.length ≤ 1 := by
    rintro c e ⟨hnone, hlength⟩
    have hdispatch (c : Conn) (hnone : c.requests = []) :
        (c.dispatch.isOpen = true → c.dispatch.requests = []) ∧ c.dispatch.requests.length ≤ 1 := by
      rw [Conn.dispatch, hnone]
      exact ⟨fun hopen => (nomatch hopen), le_rfl⟩
    rw [Conn.step]
    by_cases hopen : c.isOpen = true
    case neg =>
      rw [if_neg hopen]
      exact ⟨hnone, hlength⟩
    rw [if_pos hopen]
    cases e with
    | timeout => exact ⟨fun hclosed => (nomatch hclosed), hlength⟩
    | error => exact ⟨fun hclosed => (nomatch hclosed), hlength⟩
    | again => exact ⟨hnone, hlength⟩
    | eof =>
      rw [Conn.onRead]
      split_ifs
      · exact hdispatch c (hnone hopen)
      · exact ⟨hnone, hlength⟩
    | data more =>
      rw [Conn.onRead]
      split_ifs
      · exact ⟨hnone, hlength⟩
      · exact hdispatch (c.read more) (hnone hopen)
      · exact ⟨hnone, hlength⟩
  have hnew : ((Conn.new stream).isOpen = true → (Conn.new stream).requests = []) ∧ (Conn.new stream).requests.length ≤ 1 :=
    ⟨fun _ => rfl, Nat.zero_le _⟩
  have hrun := Runs.foldl_of_along (P := fun _ _ => True)
    (J := fun c : Conn => (c.isOpen = true → c.requests = []) ∧ c.requests.length ≤ 1) (fun c e h _ => hstep c e h) hnew
    (Runs.along_of_forall (fun _ _ => trivial) _ events)
  exact hrun.2

/-- What was handed over on a connection whose stream starts with this object. -/
structure Framed (cli : Bool) (obj : List Char) (c : Conn) : Prop where
  once : c.requests.length ≤ 1
  exact : ∀ r ∈ c.requests, request cli (Conn.cString r) = request cli obj

/-- A read that brings nothing behind the object that would be looked up, and does not end
    between the end of a line and the object; `start`: how many bytes the object and the blanks
    before it have. -/
def Fits (cli : Bool) (obj : List Char) (start : Nat) (c : Conn) : Event → Prop
  | .data more =>
    c.isOpen = true → c.unread ≠ [] →
      (skipWs (c.read more).req = [] → '\n' ∉ (c.read more).req) ∧
        Silent cli obj (Conn.cString ((c.read more).req.drop start))
  | .timeout | .eof | .again | .error => True

/-- What holds of a connection, of which the stream is given. -/
structure Conn.Inv (cli : Bool) (before ws : Blank) (ms : Syn .members) (rest : List Char) (c : Conn) : Prop where
  reading : c.isOpen = true → c.requests = [] ∧ c.req ++ c.unread = before.chars ++ (Syn.object ws ms).text ++ rest ∧
    c.req.length < (before.chars ++ (Syn.object ws ms).text).length
  exact : ∀ r ∈ c.requests, request cli (Conn.cString r) = request cli (Syn.object ws ms).text

theorem Conn.read_append (c : Conn) (more : Nat) : (c.read more).req ++ (c.read more).unread = c.req ++ c.unread := by
  rw [Conn.read, List.append_assoc, List.take_append_drop]

theorem Conn.Inv.step {c : Conn} (h : c.Inv cli before ws ms rest)
    (hmax : (before.chars ++ (Syn.object ws ms).text).length ≤ maxReq) {e : Event}
    (hfits : Fits cli (Syn.object ws ms).text (before.chars ++ (Syn.object ws ms).text).length c e) :
    (c.step e).Inv cli before ws ms rest := by
  rw [Conn.step]
  by_cases hopen : c.isOpen = true
  case neg =>
    rw [if_neg hopen]
    exact h
  rw [if_pos hopen]
  obtain ⟨hrequests, hstream, hlength⟩ := h.reading hopen
  cases e with
  | timeout => exact ⟨fun hclosed => (nomatch hclosed), h.exact⟩
  | error => exact ⟨fun hclosed => (nomatch hclosed), h.exact⟩
  | again => exact h
  | eof =>
    rw [Conn.onRead]
    split_ifs with hunread
    · -- the object would have been there
      rw [hunread, List.append_nil] at hstream
      rw [hstream, List.length_append] at hlength
      omega
    · exact h
  | data more =>
    rw [Conn.onRead]
    by_cases hunread : c.unread = []
    · rw [if_pos hunread]
      exact h
    rw [if_neg hunread]
    obtain ⟨hline, hsilent⟩ := hfits hopen hunread
    have hread := (c.read_append more).trans hstream
    by_cases hlength' : (c.read more).req.length < (before.chars ++ (Syn.object ws ms).text).length
    · rw [if_neg]
      · exact ⟨fun _ => ⟨hrequests, hread, hlength'⟩, h.exact⟩
      · rw [complete_eq_false hread hlength' hline]
        simp only [Bool.false_eq_true, false_or, not_le]
        exact hlength'.trans_le hmax
    · -- the request starts with the object
      obtain ⟨extra, hextra⟩ : before.chars ++ (Syn.object ws ms).text <+: (c.read more).req :=
        List.prefix_of_prefix_length_le ⟨rest, rfl⟩ ⟨_, hread⟩ (Nat.not_lt.1 hlength')
      have hcomplete : complete (c.read more).req = true := by
        have hbrace : skipWs (before.chars ++ (Syn.object ws ms).text ++ extra) = (Syn.object ws ms).text ++ extra := by
          rw [List.append_assoc, skipWs_blank]
          exact skipWs_brace _
        rw [← hextra, complete, hbrace, if_pos (show ((Syn.object ws ms).text ++ extra).head? = some '{' from rfl),
          objectEnd_text]
        rfl
      rw [if_pos (.inl hcomplete)]
      rw [← hextra, List.drop_left] at hsilent
      refine ⟨fun hclosed => (nomatch hclosed), fun r hr => ?_⟩
      rw [Conn.dispatch, Conn.read, hrequests, List.nil_append, List.mem_singleton] at hr
      have hr : r = (c.read more).req := hr
      rw [hr, ← hextra, cString_object]
      exact (request_append_iff before ws ms _).2 hsilent

/-- If a read brings nothing behind the object that would be looked up, and none ends between
    a line and the object, and the object fits in the buffer, there is one request at most, and
    it is that of the object, wherever the stream is split and whatever follows the object. -/
theorem framed_along (cli : Bool) (before ws : Blank) (ms : Syn .members) (rest : List Char) (events : List Event)
    (hmax : (before.chars ++ (Syn.object ws ms).text).length ≤ maxReq)
    (hfits : Runs.Along Conn.step (Fits cli (Syn.object ws ms).text (before.chars ++ (Syn.object ws ms).text).length)
      (.new (before.chars ++ (Syn.object ws ms).text ++ rest)) events) :
    Framed cli (Syn.object ws ms).text (.run (before.chars ++ (Syn.object ws ms).text ++ rest) events) := by
  have hnew : (Conn.new (before.chars ++ (Syn.object ws ms).text ++ rest)).Inv cli before ws ms rest := by
    refine ⟨fun _ => ⟨rfl, rfl, ?_⟩, fun _ hr => absurd hr List.not_mem_nil⟩
    rw [List.length_append]
    exact Nat.lt_of_lt_of_le (Syn.text_value_pos _) (Nat.le_add_left _ _)
  have hinv := Runs.foldl_of_along (J := fun c => c.Inv cli before ws ms rest)
    (fun _ _ h hfits => Conn.Inv.step h hmax hfits) hnew hfits
  exact ⟨requests_length_le _ events, hinv.exact⟩

end

/-- The object of a command without parameters. -/
def command (cmd : Body) : Syn .members :=
  .member .none ⟨"cmd".toList, rfl⟩ .none .none (.string cmd) .none .noMembers

/-- A member behind an object. -/
def trailing : List Char := "\"name\":\"ann\"".toList

theorem findKey_command (cmd : Body) (key : List Char) :
    findKey key (Syn.object .none (command cmd)).text =
      if key = "cmd".toList then some (quote cmd.raw ++ ['}']) else none := by
  rw [findKey_object_self]
  show List.lookup key [("cmd".toList, quote cmd.raw ++ ['}'])] = _
  rw [List.lookup_cons]
  by_cases hkey : key = "cmd".toList
  · rw [if_pos hkey, hkey, beq_self_eq_true]
  · rw [if_neg hkey, beq_eq_false_iff_ne.2 hkey]
    rfl

/-- A line behind the object, which is read together with it. -/
theorem framed_along_sample :
    Framed false (Syn.object .none (command ⟨"remove_user".toList, rfl⟩)).text
      (.run (Blank.none.chars ++ (Syn.object .none (command ⟨"remove_user".toList, rfl⟩)).text ++ ['\n'])
        [.data 5, .again, .data 100]) := by
  refine framed_along false .none .none _ ['\n'] _ (by decide) ⟨fun _ _ => ⟨by decide, ?_⟩, trivial,
    fun _ _ => ⟨by decide, ?_⟩, trivial⟩
  · rintro p - -
    exact congrArg p.2.read (findKey.eq_1 p.1)
  · rintro p - -
    have hline : findKey p.1 ['\n'] = none := by
      rw [findKey_cons (by decide), findKey]
    exact congrArg p.2.read hline

/-- A member behind the object, read together with it, is taken for a parameter. -/
theorem not_framed : ¬∀ (cli : Bool) (before ws : Blank) (ms : Syn .members) (rest : List Char) (events : List Event),
    Framed cli (Syn.object ws ms).text (.run (before.chars ++ (Syn.object ws ms).text ++ rest) events) := by
  intro h
  have hframed := h false .none .none (command ⟨"remove_user".toList, rfl⟩) trailing [.data 100]
  have hrequest := hframed.exact _ (by decide : Blank.none.chars ++
    (Syn.object .none (command ⟨"remove_user".toList, rfl⟩)).text ++ trailing ∈ _)
  rw [cString_object, request_append_iff] at hrequest
  have hmem : ("name".toList, .string 64) ∈
      lookups false (Syn.object .none (command ⟨"remove_user".toList, rfl⟩)).text := by
    rw [lookups, findKey_command, if_pos rfl]
    exact List.mem_cons_of_mem _ List.mem_cons_self
  have hsilent := hrequest _ hmem (by rw [findKey_command, if_neg (by decide)])
  have hfound : findKey "name".toList (Conn.cString trailing) = some "\"ann\"".toList := by
    have hbody := @findKey_body "name".toList ⟨"name".toList, rfl⟩ ":\"ann\"".toList
    rw [if_pos rfl] at hbody
    exact hbody
  rw [hfound] at hsilent
  exact absurd hsilent (by decide)

end Mqvpn.Control
