import Mqvpn.Lib.Text
import Mathlib.Data.List.DropRight

/-!
# The DNS backup of macOS

The texts that the DNS override of the macOS client reads and writes: the output of
`networksetup` with the services and their DNS servers, and the backup file with a line
for each service.

What is saved for a service is its servers with spaces between them, or `Empty` if it
has none or they are not IP addresses (`recorded`). A line that is formatted is parsed
back (`parseLine_formatLine`), so is a whole file (`records_file`), and a service whose
servers are set to what is saved has the same saved again (`recorded_display`).
-/

namespace Mqvpn.DarwinDns

open Text

/-! ## Bounds -/

/-- `MQVPN_DNS_SVC_MAX` -/
def svcMax : Nat := 128

/-- `MQVPN_DNS_LIST_CAP` -/
def listCap : Nat := 4096

/-- `MQVPN_DNS_GETDNS_CAP` -/
def getdnsCap : Nat := 512

/-- `MQVPN_DNS_BACKUP_LINE` -/
def backupLine : Nat := svcMax + getdnsCap + 2

/-- `MQVPN_DNS_MAX_SERVICES` -/
def maxServices : Nat := 64

/-- `MQVPN_DNS_RESTORE_MAX_TOKENS` -/
def restoreMaxTokens : Nat := 16

/-! ## Output of networksetup -/

/-- `run_networksetup_capture`, for a command that succeeds: output that does not fit is
    refused. -/
def capture (cap : Nat) (output : List Char) : Option (List Char) :=
  if output.length < cap then some output else none

def isEol (c : Char) : Bool := c = '\r' ∨ c = '\n'

def isBlank (c : Char) : Bool := c = ' ' ∨ c = '\t'

/-- `list_services`: the header and the services that are disabled are left out. -/
def listServices (output : List Char) : Option (List (List Char)) :=
  (capture listCap output).map fun cap =>
    ((((strtok isEol cap).drop 1).filter fun line => line.head? ≠ some '*').take maxServices).map
      fun line => line.take (svcMax - 1)

def empty : List Char := "Empty".toList

/-- The loop of `get_dns_servers`, with the servers that are joined so far. -/
def joinServers : List (List Char) → List Char → Option (List Char)
  | [], joined => some (if joined = [] then empty else joined)
  | line :: lines, joined =>
    let line := line.dropWhile isBlank
    if line = [] then joinServers lines joined
    else if ¬IsIp line then some empty
    else
      let sep := if joined = [] then [] else [' ']
      if getdnsCap ≤ joined.length + sep.length + line.length then none
      else joinServers lines (joined ++ sep ++ line)

/-- `get_dns_servers`, of the output of `networksetup -getdnsservers`. -/
def getDnsServers (output : List Char) : Option (List Char) :=
  (capture getdnsCap output).bind fun cap => joinServers (strtok isEol cap) []

/-- The lines of an output that are not blank, without leading blanks. -/
def servers (lines : List (List Char)) : List (List Char) :=
  (lines.map fun line => line.dropWhile isBlank).filter (· ≠ [])

/-- The servers with spaces between them, or `Empty` if there are none or they are not all
    IP addresses. -/
def summary (servers : List (List Char)) : List Char :=
  if servers ≠ [] ∧ ∀ server ∈ servers, IsIp server then [' '].intercalate servers else empty

/-- What is to be saved for a service. -/
def recorded (output : List Char) : List Char := summary (servers (strtok isEol output))

/-! ## The backup file -/

/-- `mqvpn_dns_backup_format_line` -/
def formatLine (service servers : List Char) : Option (List Char) :=
  if service = [] ∨ '\t' ∈ service ∨ '\n' ∈ service ∨ '\n' ∈ servers then none
  else
    let line := service ++ '\t' :: (servers ++ ['\n'])
    if line.length < backupLine then some line else none

/-- `mqvpn_dns_backup_parse_line` -/
def parseLine (line : List Char) : Option (List Char × List Char) :=
  match line.dropWhile (· ≠ '\t') with
  | [] => none
  | _ :: val =>
    let service := line.takeWhile (· ≠ '\t')
    let servers := val.rdropWhile isEol
    if service = [] ∨ svcMax ≤ service.length ∨ getdnsCap ≤ servers.length then none
    else some (service, servers)

/-- What the calls of `fgets` on a text return one after the other, with what has been read
    of the next line. -/
def pieces : List Char → List Char → List (List Char)
  | [], read => if read = [] then [] else [read]
  | c :: cs, read =>
    if c = '\n' ∨ read.length + 1 = backupLine - 1 then (read ++ [c]) :: pieces cs []
    else pieces cs (read ++ [c])

/-- The buffer was filled before the end of the line. -/
def Overlong (piece : List Char) : Prop := piece.length = backupLine - 1 ∧ '\n' ∉ piece

instance (piece : List Char) : Decidable (Overlong piece) := inferInstanceAs (Decidable (_ ∧ _))

/-- The loop of `validate_existing_backup` -/
def Valid (lines : List (List Char)) : Prop := ∀ line ∈ lines, ¬Overlong line ∧ (parseLine line).isSome = true

instance (lines : List (List Char)) : Decidable (Valid lines) := inferInstanceAs (Decidable (∀ line ∈ lines, _))

/-- The loop of `backup_has_service` -/
def hasService (lines : List (List Char)) (name : List Char) : Bool :=
  lines.any fun line => (parseLine line).map Prod.fst = some name

/-- The lines as `restore_from_backup_file` reads them; `skip` is whether the rest of an
    overlong line is being skipped. -/
def records : List (List Char) → Bool → List (Option (List Char × List Char))
  | [], _ => []
  | piece :: rest, true => records rest ('\n' ∉ piece)
  | piece :: rest, false =>
    if Overlong piece then none :: records rest true else parseLine piece :: records rest false

/-- The servers that `restore_one` gives to `networksetup -setdnsservers`. -/
def restoreArgs (servers : List Char) : Option (List (List Char)) :=
  if servers = empty then some [empty]
  else
    let args := strtok (· = ' ') servers
    if restoreMaxTokens < args.length then none else some args

/-- What `networksetup -getdnsservers` prints once the servers are set. -/
def display (service : List Char) (args : List (List Char)) : List Char :=
  if args = [empty] then "There aren't any DNS Servers set on ".toList ++ service ++ ".\n".toList
  else args.flatMap (· ++ ['\n'])

example : getDnsServers "1.1.1.1\nfd00::1\n".toList = some "1.1.1.1 fd00::1".toList := by decide
example : listServices "An asterisk\nWi-Fi\n*Old\nUSB LAN\n".toList = some ["Wi-Fi".toList, "USB LAN".toList] := by
  decide

/-! ## What is saved -/

theorem isIp_word {server : List Char} (h : IsIp server) :
    server ≠ [] ∧ ∀ c ∈ server, isEol c = false ∧ isBlank c = false := by
  refine ⟨h.ne_nil, fun c hc => ?_⟩
  have hchar := h.ipChar c hc
  have hne : ∀ d, ¬IpChar d → c ≠ d := by
    rintro d hd rfl
    exact hd hchar
  have h₁ := hne '\r' (by decide)
  have h₂ := hne '\n' (by decide)
  have h₃ := hne ' ' (by decide)
  have h₄ := hne '\t' (by decide)
  simp [isEol, isBlank, h₁, h₂, h₃, h₄]

/-- One more server, with a space before it unless it is the first. -/
theorem intercalate_concat (done : List (List Char)) (server : List Char) (hdone : ∀ server ∈ done, IsIp server) :
    [' '].intercalate done ++ (if [' '].intercalate done = [] then [] else [' ']) ++ server =
      [' '].intercalate (done ++ [server]) := by
  induction done with
  | nil => simp
  | cons first done ih =>
    have hfirst := (hdone first List.mem_cons_self).ne_nil
    cases done with
    | nil => simp [hfirst]
    | cons next done =>
      have ih := ih fun server hs => hdone server (List.mem_cons_of_mem _ hs)
      have hnext : [' '].intercalate (next :: done) ≠ [] := by
        have hne := (hdone next (by simp)).ne_nil
        cases done with
        | nil => simpa using hne
        | cons _ _ => simp [List.intercalate_cons_cons]
      rw [if_neg hnext] at ih
      rw [List.cons_append, List.cons_append, List.intercalate_cons_cons, List.intercalate_cons_cons,
        ← List.cons_append, ← ih, if_neg (by simp [hfirst])]
      simp

theorem intercalate_eq_nil {done : List (List Char)} (hdone : ∀ server ∈ done, IsIp server)
    (h : [' '].intercalate done = []) : done = [] := by
  cases done with
  | nil => rfl
  | cons first done =>
    have hfirst := (hdone first List.mem_cons_self).ne_nil
    cases done with
    | nil => simp [hfirst] at h
    | cons next done => simp [List.intercalate_cons_cons] at h

theorem summary_of_isIp {servers : List (List Char)} (hne : servers ≠ []) (h : ∀ server ∈ servers, IsIp server) :
    summary servers = [' '].intercalate servers :=
  if_pos ⟨hne, h⟩

/-- The loop saves the servers that are done and those of the lines. -/
theorem joinServers_spec {lines done : List (List Char)} (hdone : ∀ server ∈ done, IsIp server) {v : List Char}
    (h : joinServers lines ([' '].intercalate done) = some v) : v = summary (done ++ servers lines) := by
  induction lines generalizing done with
  | nil =>
    rw [joinServers] at h
    cases h
    change _ = summary (done ++ [])
    rw [List.append_nil]
    by_cases hnil : done = []
    · subst hnil
      rfl
    · rw [if_neg fun h => hnil (intercalate_eq_nil hdone h), summary_of_isIp hnil hdone]
  | cons line lines ih =>
    rw [joinServers] at h
    dsimp only at h
    split at h
    · rename_i hblank
      rw [ih hdone h, servers, servers, List.map_cons, List.filter_cons_of_neg (by simp [hblank])]
    · rename_i hne
      have hcons : servers (line :: lines) = line.dropWhile isBlank :: servers lines := by
        rw [servers, List.map_cons, List.filter_cons_of_pos (by simpa using hne)]
        rfl
      rw [hcons]
      split at h
      · rename_i hip
        cases h
        refine (if_neg ?_).symm
        rintro ⟨-, hall⟩
        exact hip (hall _ (by simp))
      · rename_i hip
        have hconcat := intercalate_concat done (line.dropWhile isBlank) hdone
        generalize (if [' '].intercalate done = [] then [] else [' ']) = sep at h hconcat
        split at h
        · cases h
        · rw [hconcat] at h
          rw [ih (fun server hs => ?_) h, List.append_assoc, List.singleton_append]
          rcases List.mem_append.1 hs with hs | hs
          · exact hdone server hs
          · cases List.mem_singleton.1 hs
            exact not_not.1 hip

/-- `get_dns_servers` returns what is to be saved, or nothing. -/
theorem getDnsServers_spec {output v : List Char} (h : getDnsServers output = some v) : v = recorded output := by
  obtain ⟨cap, hcap, hjoin⟩ := Option.bind_eq_some_iff.1 h
  rw [capture] at hcap
  split_ifs at hcap
  cases hcap
  have hnone : ∀ server ∈ ([] : List (List Char)), IsIp server := fun _ hs => absurd hs List.not_mem_nil
  exact joinServers_spec hnone hjoin

theorem length_joinServers {lines : List (List Char)} {joined v : List Char} (hjoined : joined.length < getdnsCap)
    (h : joinServers lines joined = some v) : v.length < getdnsCap := by
  induction lines generalizing joined with
  | nil =>
    rw [joinServers] at h
    split_ifs at h
    · cases h
      decide
    · cases h
      exact hjoined
  | cons line lines ih =>
    rw [joinServers] at h
    dsimp only at h
    generalize (if joined = [] then [] else [' ']) = sep at h
    split at h
    · exact ih hjoined h
    · split at h
      · cases h
        decide
      · split at h
        · cases h
        · rename_i hfit
          refine ih ?_ h
          simp only [List.length_append]
          omega

theorem length_getDnsServers {output v : List Char} (h : getDnsServers output = some v) : v.length < getdnsCap := by
  obtain ⟨cap, -, hjoin⟩ := Option.bind_eq_some_iff.1 h
  exact length_joinServers (by decide) hjoin

theorem length_listServices {output : List Char} {services : List (List Char)} (h : listServices output = some services) :
    ∀ service ∈ services, service.length < svcMax := by
  obtain ⟨cap, -, rfl⟩ := Option.map_eq_some_iff.1 h
  intro service hservice
  obtain ⟨line, -, rfl⟩ := List.mem_map.1 hservice
  exact Nat.lt_of_le_of_lt (List.length_take_le _ _) (by decide)

/-- What is saved is `Empty`, or IP addresses with spaces between them. -/
theorem recorded_cases (output : List Char) :
    recorded output = empty ∨ ∃ servers : List (List Char), servers ≠ [] ∧ (∀ server ∈ servers, IsIp server) ∧
      recorded output = [' '].intercalate servers := by
  rw [recorded, summary]
  split_ifs with h
  · exact .inr ⟨_, h.1, h.2, rfl⟩
  · exact .inl rfl

theorem mem_intercalate {words : List (List Char)} {c : Char} (h : c ∈ [' '].intercalate words) :
    c = ' ' ∨ ∃ word ∈ words, c ∈ word := by
  induction words with
  | nil => exact absurd h List.not_mem_nil
  | cons first rest ih =>
    cases rest with
    | nil =>
      rw [List.intercalate_singleton] at h
      exact .inr ⟨first, List.mem_cons_self, h⟩
    | cons next rest =>
      rw [List.intercalate_cons_cons, List.append_assoc] at h
      rcases List.mem_append.1 h with h | h
      · exact .inr ⟨first, List.mem_cons_self, h⟩
      · rcases List.mem_append.1 h with h | h
        · exact .inl (List.mem_singleton.1 h)
        · rcases ih h with h | ⟨word, hword, h⟩
          · exact .inl h
          · exact .inr ⟨word, List.mem_cons_of_mem _ hword, h⟩

/-- There is no end of a line in what is saved. -/
theorem isEol_recorded (output : List Char) : ∀ c ∈ recorded output, isEol c = false := by
  rcases recorded_cases output with h | ⟨servers, -, hip, h⟩
  · rw [h]
    exact List.forall_iff_forall_mem.1 (by decide)
  · intro c hc
    rw [h] at hc
    rcases mem_intercalate hc with rfl | ⟨server, hserver, hc⟩
    · decide
    · exact ((isIp_word (hip server hserver)).2 c hc).1

/-! ## Lines that are read back -/

theorem formatLine_spec {service servers line : List Char} (h : formatLine service servers = some line) :
    (service ≠ [] ∧ '\t' ∉ service ∧ '\n' ∉ service ∧ '\n' ∉ servers) ∧
      line = service ++ '\t' :: (servers ++ ['\n']) ∧ line.length < backupLine := by
  rw [formatLine] at h
  dsimp only at h
  split at h
  · cases h
  · rename_i hbad
    split at h
    · rename_i hfit
      cases h
      exact ⟨by simpa only [not_or] using hbad, rfl, hfit⟩
    · cases h

theorem parseLine_formatLine {service servers line : List Char} (h : formatLine service servers = some line)
    (hsvc : service.length < svcMax) (hsrv : servers.length < getdnsCap) (heol : ∀ c ∈ servers, isEol c = false) :
    parseLine line = some (service, servers) := by
  obtain ⟨⟨hne, htab, -, -⟩, rfl, -⟩ := formatLine_spec h
  have hservice : ∀ c ∈ service, decide (c ≠ '\t') = true := by
    intro c hc
    have hc' : c ≠ '\t' := by
      rintro rfl
      exact htab hc
    simpa using hc'
  have hdrop : (service ++ '\t' :: (servers ++ ['\n'])).dropWhile (· ≠ '\t') = '\t' :: (servers ++ ['\n']) := by
    rw [List.dropWhile_append_of_pos hservice]
    rfl
  have htake : (service ++ '\t' :: (servers ++ ['\n'])).takeWhile (· ≠ '\t') = service := by
    rw [List.takeWhile_append_of_pos hservice]
    simp
  have hstrip : (servers ++ ['\n']).rdropWhile isEol = servers := by
    rw [List.rdropWhile_concat_pos _ _ _ (by decide), List.rdropWhile_eq_self_iff]
    intro hne
    simp [heol _ (List.getLast_mem hne)]
  rw [parseLine, hdrop]
  dsimp only
  rw [htake, hstrip, if_neg]
  simp only [not_or, Nat.not_le]
  exact ⟨hne, hsvc, hsrv⟩

/-- `fgets` reads a line that fits as it is. -/
theorem pieces_append {body : List Char} (hbody : '\n' ∉ body) {read : List Char}
    (hfit : read.length + body.length + 1 ≤ backupLine - 1) (rest : List Char) :
    pieces (body ++ '\n' :: rest) read = (read ++ body ++ ['\n']) :: pieces rest [] := by
  induction body generalizing read with
  | nil =>
    rw [List.nil_append, pieces, if_pos (.inl rfl), List.append_nil]
  | cons c body ih =>
    have hc : c ≠ '\n' := by
      rintro rfl
      exact hbody List.mem_cons_self
    rw [List.length_cons] at hfit
    rw [List.cons_append, pieces, if_neg, ih (fun hmem => hbody (List.mem_cons_of_mem _ hmem))]
    · simp
    · simp only [List.length_append, List.length_singleton]
      omega
    · rintro (h | h)
      · exact hc h
      · omega

/-- A service and what is saved for it, which can stand in a line. -/
structure Entry (service servers line : List Char) : Prop where
  format : formatLine service servers = some line
  service_lt : service.length < svcMax
  servers_lt : servers.length < getdnsCap
  isEol : ∀ c ∈ servers, isEol c = false

namespace Entry

variable {service servers line : List Char}

theorem parse (h : Entry service servers line) : parseLine line = some (service, servers) :=
  parseLine_formatLine h.format h.service_lt h.servers_lt h.isEol

/-- A line is its body and the end of the line. -/
theorem body (h : Entry service servers line) :
    ∃ body, line = body ++ ['\n'] ∧ '\n' ∉ body ∧ body.length + 1 ≤ backupLine - 1 := by
  obtain ⟨⟨-, -, hservice, hservers⟩, rfl, hfit⟩ := formatLine_spec h.format
  refine ⟨service ++ '\t' :: servers, by simp, ?_, ?_⟩
  · simp only [List.mem_append, List.mem_cons, not_or]
    exact ⟨hservice, by decide, hservers⟩
  · simp only [List.length_append, List.length_cons, List.length_nil] at hfit ⊢
    omega

theorem not_overlong (h : Entry service servers line) : ¬Overlong line := by
  obtain ⟨body, rfl, -, -⟩ := h.body
  rintro ⟨-, hmem⟩
  exact hmem (by simp)

end Entry

/-- A backup with a line for each entry. -/
def file (entries : List (List Char × List Char × List Char)) : List Char := entries.flatMap fun e => e.2.2

variable {entries : List (List Char × List Char × List Char)}

theorem pieces_file (h : ∀ e ∈ entries, Entry e.1 e.2.1 e.2.2) : pieces (file entries) [] = entries.map fun e => e.2.2 := by
  induction entries with
  | nil => rfl
  | cons e entries ih =>
    obtain ⟨body, hline, hbody, hfit⟩ := (h e List.mem_cons_self).body
    rw [file, List.flatMap_cons, hline, List.append_assoc, List.singleton_append,
      pieces_append hbody (by simpa using hfit), List.nil_append, List.map_cons, hline]
    exact congrArg _ (ih fun e he => h e (List.mem_cons_of_mem _ he))

/-- A file is read back as its entries. -/
theorem records_file (h : ∀ e ∈ entries, Entry e.1 e.2.1 e.2.2) :
    records (entries.map fun e => e.2.2) false = entries.map fun e => some (e.1, e.2.1) := by
  induction entries with
  | nil => rfl
  | cons e entries ih =>
    have he := h e List.mem_cons_self
    rw [List.map_cons, records, if_neg he.not_overlong, he.parse, List.map_cons,
      ih fun e he => h e (List.mem_cons_of_mem _ he)]

/-! ## Servers that are set back -/

/-- An output with a character that is neither blank nor in an address. -/
theorem recorded_of_mem {output : List Char} {c : Char} (hc : c ∈ output) (hip : ¬IpChar c) (heol : isEol c = false)
    (hblank : isBlank c = false) : recorded output = empty := by
  rcases mem_splitOnP (p := isEol) hc with h | ⟨part, hpart, hc⟩
  · exact absurd (heol.symm.trans h) Bool.false_ne_true
  · have hmem : ∀ {line : List Char}, c ∈ line → c ∈ line.dropWhile isBlank := by
      intro line hline
      rw [← List.takeWhile_append_dropWhile (p := isBlank) (l := line)] at hline
      rcases List.mem_append.1 hline with h | h
      · exact absurd (hblank.symm.trans (List.mem_takeWhile_imp h)) Bool.false_ne_true
      · exact h
    have hserver : part.dropWhile isBlank ∈ servers (strtok isEol output) := by
      refine List.mem_filter.2 ⟨List.mem_map.2 ⟨part, ?_, rfl⟩, ?_⟩
      · exact List.mem_filter.2 ⟨hpart, by simpa using List.ne_nil_of_mem hc⟩
      · simpa using List.ne_nil_of_mem (hmem hc)
    refine if_neg ?_
    rintro ⟨-, hall⟩
    exact hip ((hall _ hserver).ipChar c (hmem hc))

/-- Addresses one to a line are saved as they are. -/
theorem recorded_flatMap {words : List (List Char)} (hne : words ≠ []) (hip : ∀ word ∈ words, IsIp word) :
    recorded (words.flatMap (· ++ ['\n'])) = [' '].intercalate words := by
  have hwords : ∀ word ∈ words, word ≠ [] ∧ ∀ c ∈ word, isEol c = false := fun word hword =>
    ⟨(isIp_word (hip word hword)).1, fun c hc => ((isIp_word (hip word hword)).2 c hc).1⟩
  have hservers : servers words = words := by
    have hmap : words.map (fun line => line.dropWhile isBlank) = words := by
      refine (List.map_congr_left fun word hword => ?_).trans (List.map_id words)
      obtain ⟨hnil, hchars⟩ := isIp_word (hip word hword)
      obtain ⟨c, cs, rfl⟩ := List.exists_cons_of_ne_nil hnil
      exact List.dropWhile_cons_of_neg (by simp [(hchars c List.mem_cons_self).2])
    rw [servers, hmap, List.filter_eq_self]
    exact fun word hword => by simpa using (hwords word hword).1
  rw [recorded, strtok_flatMap (by decide) hwords, hservers, summary_of_isIp hne hip]

/-- What is saved for addresses is split into them again, if they are not too many. -/
theorem restoreArgs_intercalate {words : List (List Char)} (hip : ∀ word ∈ words, IsIp word) :
    restoreArgs ([' '].intercalate words) = if restoreMaxTokens < words.length then none else some words := by
  have hword : ∀ word ∈ words, word ≠ [] ∧ ∀ c ∈ word, decide (c = ' ') = false := by
    intro word hword
    obtain ⟨hnil, hchars⟩ := isIp_word (hip word hword)
    refine ⟨hnil, fun c hc => ?_⟩
    have hblank := (hchars c hc).2
    simp only [isBlank, decide_eq_false_iff_not, not_or] at hblank
    simpa using hblank.1
  have hempty : [' '].intercalate words ≠ empty := by
    intro heq
    have hm : 'm' ∈ [' '].intercalate words := heq ▸ by decide
    rcases mem_intercalate hm with hspace | ⟨word, hword, hm⟩
    · exact absurd hspace (by decide)
    · exact absurd ((hip word hword).ipChar _ hm) (by decide)
  rw [restoreArgs, if_neg hempty]
  dsimp only
  rw [strtok_intercalate (by decide) hword]

/-- The sentence about a service without servers is saved as `Empty`. -/
theorem recorded_display_empty (service : List Char) : recorded (display service [empty]) = empty := by
  rw [display, if_pos rfl]
  refine recorded_of_mem (c := 'T') ?_ (by decide) (by decide) (by decide)
  rw [List.append_assoc]
  exact List.mem_append_left _ (by decide)

/-- Addresses are printed one to a line. -/
theorem display_of_isIp {words : List (List Char)} (hip : ∀ word ∈ words, IsIp word) (service : List Char) :
    display service words = words.flatMap (· ++ ['\n']) := by
  refine if_neg ?_
  rintro rfl
  exact absurd (hip empty List.mem_cons_self) (by decide)

/-- A service whose servers are set to what is saved has the same saved again. -/
theorem recorded_display {output : List Char} {args : List (List Char)} (service : List Char)
    (h : restoreArgs (recorded output) = some args) : recorded (display service args) = recorded output := by
  rcases recorded_cases output with hempty | ⟨words, hne, hip, hwords⟩
  · rw [hempty, restoreArgs, if_pos rfl] at h
    cases h
    rw [hempty, recorded_display_empty]
  · rw [hwords, restoreArgs_intercalate hip] at h
    split_ifs at h
    obtain rfl := Option.some.inj h
    rw [display_of_isIp hip, recorded_flatMap hne hip, hwords]

end Mqvpn.DarwinDns
