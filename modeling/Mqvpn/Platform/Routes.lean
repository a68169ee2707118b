import Mqvpn.Lib.Text
import Mqvpn.Platform.Model
import Mathlib.Data.List.Infix

/-!
# The routes of the Linux platform

`setup_routes` sends all traffic into the tunnel, but for the packets to the server,
which are pinned to the way they took before. `cleanup_routes` takes the routes back.
Both run `ip route` commands, each of which may fail, and both only ever replace and
delete: what a `replace` overwrites is not remembered.

The routing table has one route for a destination. How the way to the server is found
out is part of the model (`discover`): the words of what `ip route get` and
`ip route show` print.

`restores_iff` says when the host gets its routes back: exactly when nothing was
overwritten but routes into the tunnel, and the pin is taken away, where there was no
route of its own for the server, or stays, where there was the same one.
-/

namespace Mqvpn

open Platform Text

namespace LinuxRoutes

/-! ## Routing tables -/

/-- The destination of a route. -/
structure Prefix where
  addr : Addr
  length : Nat
  deriving DecidableEq

/-- `0.0.0.0/0` -/
def default4 : Prefix := ⟨⟨.v4, [0, 0, 0, 0]⟩, 0⟩

/-- `0.0.0.0/1` -/
def low4 : Prefix := ⟨⟨.v4, [0, 0, 0, 0]⟩, 1⟩

/-- `128.0.0.0/1` -/
def high4 : Prefix := ⟨⟨.v4, [128, 0, 0, 0]⟩, 1⟩

/-- `::/1` -/
def low6 : Prefix := ⟨⟨.v6, List.replicate 16 0⟩, 1⟩

/-- `8000::/1` -/
def high6 : Prefix := ⟨⟨.v6, 128 :: List.replicate 15 0⟩, 1⟩

/-- `mqvpn_sa_host_prefix` -/
def saHostPrefix (addr : Addr) : Nat :=
  match addr.family with
  | .v4 => 32
  | .v6 => 128

/-- A route: its gateway, which is empty if the destination is on the link, and its
    device. -/
structure Route where
  via : List Char := []
  dev : List Char
  deriving DecidableEq

/-- The routing table. -/
abbrev Table := Prefix → Option Route

/-- A call of `ip route`. -/
inductive Command
  | replace (dst : Prefix) (route : Route)
  | del (dst : Prefix) (route : Route)
  deriving DecidableEq

/-- The table after a command; nothing if the command fails. A gateway that is not
    given matches every route. -/
def Command.apply (cmd : Command) (table : Table) : Option Table :=
  match cmd with
  | .replace dst route => some (Function.update table dst (some route))
  | .del dst route =>
    match table dst with
    | some old =>
      if old.dev = route.dev ∧ (route.via = [] ∨ old.via = route.via) then
        some (Function.update table dst none)
      else none
    | none => none

/-! ## What the platform meets -/

/-- What `ip route get` and `ip route show` print for the server; nothing where the
    command fails. -/
structure Attempt where
  get : Option (List Char) := none
  shown : Option (List Char) := none

structure Env where
  /-- The attempts to find the way to the server. -/
  attempt : Nat → Attempt := fun _ => {}
  /-- Whether a command works, where it can. -/
  ok : Command → Bool := fun _ => true

end LinuxRoutes

open LinuxRoutes

/-- The part of `platform_ctx_t` that routing is about, with the routing table. -/
structure LinuxRoutes where
  serverAddr : Addr
  routeViaServer : Bool := false
  serverTunnelIp : List Char := "10.0.0.1".toList
  tunName : List Char := "mqvpn0".toList
  hasV6 : Bool := false
  /-- The interface of the first path; empty if there is none. -/
  firstIface : List Char := []
  /-- `server_ip_str` -/
  serverIp : Addr := ⟨.v4, []⟩
  origGateway : List Char := []
  origIface : List Char := []
  routingConfigured : Bool := false
  routing6Configured : Bool := false
  table : Table

namespace LinuxRoutes

/-! ## The way to the server -/

/-- `INET6_ADDRSTRLEN` -/
def inet6Addrstrlen : Nat := 46

/-- `IFNAMSIZ` -/
def ifnamsiz : Nat := 16

/-- The delimiters of the words that `ip` prints. -/
def isDelim (c : Char) : Bool := c = ' ' ∨ c = '\t' ∨ c = '\r' ∨ c = '\n'

/-- The loop of `discover_route` over the words: the last gateway and device. -/
def parseGet : List (List Char) → Route → Route
  | [], route | [_], route => route
  | tok :: next :: rest, route =>
    if tok = "via".toList then parseGet rest { route with via := next.take (inet6Addrstrlen - 1) }
    else if tok = "dev".toList then parseGet rest { route with dev := next.take (ifnamsiz - 1) }
    else parseGet (next :: rest) route

/-- The nexthops that `discover_route_from_show` keeps. -/
structure Hops where
  /-- The one on the interface that is wanted. -/
  pref : Route := { dev := [] }
  first : Route := { dev := [] }
  cur : Route := { dev := [] }

/-- A nexthop block is complete. -/
def Hops.commit (want : List Char) (h : Hops) : Hops :=
  if h.cur.dev = [] then h
  else
    { h with
      first := if h.first.dev = [] then h.cur else h.first
      pref := if h.pref.dev = [] ∧ want ≠ [] ∧ h.cur.dev = want then h.cur else h.pref }

/-- The loop of `discover_route_from_show` over the words. -/
def parseShow (want : List Char) : List (List Char) → Hops → Hops
  | [], h => h
  | [tok], h => if tok = "nexthop".toList then { h.commit want with cur := { dev := [] } } else h
  | tok :: next :: rest, h =>
    if tok = "nexthop".toList then parseShow want (next :: rest) { h.commit want with cur := { dev := [] } }
    else if tok = "via".toList then
      parseShow want rest { h with cur := { h.cur with via := next.take (inet6Addrstrlen - 1) } }
    else if tok = "dev".toList then
      parseShow want rest { h with cur := { h.cur with dev := next.take (ifnamsiz - 1) } }
    else parseShow want (next :: rest) h

variable (p : LinuxRoutes)

/-- `discover_route`, and whether it succeeds. -/
def discoverRoute (out : Option (List Char)) : LinuxRoutes × Bool :=
  match out with
  | none | some [] => (p, false)
  | some out =>
    if "nexthop".toList <:+: out then ({ p with origGateway := [], origIface := [] }, false)
    else
      let route := parseGet (strtok isDelim out) { dev := [] }
      ({ p with origGateway := route.via, origIface := route.dev }, route.dev ≠ [])

/-- `discover_route_from_show`, and whether it succeeds. -/
def discoverRouteFromShow (out : Option (List Char)) : LinuxRoutes × Bool :=
  match out with
  | none | some [] => (p, false)
  | some out =>
    let h := (parseShow p.firstIface (strtok isDelim out) {}).commit p.firstIface
    let route := if h.pref.dev ≠ [] then h.pref else h.first
    if route.dev = [] then (p, false)
    else ({ p with origGateway := route.via, origIface := route.dev }, true)

/-- `ROUTE_DISCOVER_MAX_ATTEMPTS` -/
def routeDiscoverMaxAttempts : Nat := 6

/-- The attempts of `setup_routes` to find the way to the server. -/
def discoverLoop (p : LinuxRoutes) : List Attempt → LinuxRoutes × Bool
  | [] => (p, false)
  | a :: as =>
    match p.discoverRoute a.get with
    | (p, true) => (p, true)
    | (p, false) =>
      match p.discoverRouteFromShow a.shown with
      | (p, true) => (p, true)
      | (p, false) => discoverLoop p as

/-- The first part of `setup_routes`, with the last resort: the interface of the first
    path. -/
def discover (env : Env) : LinuxRoutes × Bool :=
  let p := { p with serverIp := p.serverAddr }
  match p.discoverLoop ((List.range routeDiscoverMaxAttempts).map env.attempt) with
  | (p, true) => (p, true)
  | (p, false) =>
    if p.firstIface ≠ [] then ({ p with origGateway := [], origIface := p.firstIface }, true)
    else (p, false)

/-! ## Set-up and clean-up -/

/-- `run_ip_cmd` -/
def runIpCmd (ok : Command → Bool) (cmd : Command) : LinuxRoutes × Bool :=
  if ok cmd then
    match cmd.apply p.table with
    | some table => ({ p with table }, true)
    | none => (p, false)
  else (p, false)

/-- The server. -/
def host : Prefix := ⟨p.serverIp, saHostPrefix p.serverAddr⟩

/-- The way to the server, as it was found out. -/
def pin : Route := ⟨p.origGateway, p.origIface⟩

/-- The way into the tunnel. -/
def tun : Route := { dev := p.tunName }

/-- The default route through the server. -/
def viaTunnel : Route := ⟨p.serverTunnelIp, p.tunName⟩

/-- Routes into the tunnel are deleted; the results of the commands are not looked at. -/
def delTun (ok : Command → Bool) (dsts : List Prefix) : LinuxRoutes :=
  dsts.foldl (fun p dst => (p.runIpCmd ok (.del dst p.tun)).1) p

/-- The server is pinned, and whether that succeeds. -/
def pinServer (ok : Command → Bool) : LinuxRoutes × Bool :=
  if p.origGateway ≠ [] then p.runIpCmd ok (.replace p.host p.pin) else (p, true)

def unpinServer (ok : Command → Bool) : LinuxRoutes :=
  if p.origGateway ≠ [] then (p.runIpCmd ok (.del p.host p.pin)).1 else p

/-- The routes for IPv4, and whether they could be set. -/
def redirect (ok : Command → Bool) : LinuxRoutes × Bool :=
  if p.routeViaServer then
    let p := p.delTun ok [low4, high4]
    match p.runIpCmd ok (.replace default4 p.viaTunnel) with
    | (p, true) => (p, true)
    | (p, false) => (p.unpinServer ok, false)
  else
    let (p, done) :=
      match p.runIpCmd ok (.replace low4 p.tun) with
      | (p, true) => p.runIpCmd ok (.replace high4 p.tun)
      | (p, false) => (p, false)
    if done then (p, true) else ((p.delTun ok [low4, high4]).unpinServer ok, false)

/-- The routes for IPv6; it does not matter whether they could be set. -/
def redirect6 (ok : Command → Bool) : LinuxRoutes :=
  if p.hasV6 then
    match p.runIpCmd ok (.replace low6 p.tun) with
    | (p, true) =>
      match p.runIpCmd ok (.replace high6 p.tun) with
      | (p, true) => { p with routing6Configured := true }
      | (p, false) => p
    | (p, false) => p
  else p

/-- `setup_routes`, and whether it succeeds. -/
def setupRoutes (env : Env) : LinuxRoutes × Bool :=
  match p.discover env with
  | (p, false) => (p, false)
  | (p, true) =>
    match p.pinServer env.ok with
    | (p, false) => (p, false)
    | (p, true) =>
      match p.redirect env.ok with
      | (p, false) => (p, false)
      | (p, true) => ({ p with routingConfigured := true }.redirect6 env.ok, true)

/-- `cleanup_routes` -/
def cleanupRoutes (ok : Command → Bool) : LinuxRoutes :=
  if p.routingConfigured = false then p
  else
    let p :=
      if p.routing6Configured then { p.delTun ok [low6, high6] with routing6Configured := false } else p
    { (p.delTun ok [default4, low4, high4]).unpinServer ok with routingConfigured := false }

/-! ## Off the tunnel -/

/-- The route for a destination, if it does not go into the tunnel. -/
def away (tunName : List Char) (table : Table) (dst : Prefix) : Option Route :=
  (table dst).filter fun route => route.dev ≠ tunName

/-- The table after a set-up that fails, or else after the clean-up. -/
def afterwards (p : LinuxRoutes) (env : Env) (ok : Command → Bool) : Table :=
  let (q, done) := p.setupRoutes env
  (if done then q.cleanupRoutes ok else q).table

/-- Afterwards the table is as it was, apart from the routes into the tunnel. -/
def Restores (p : LinuxRoutes) (env : Env) (ok : Command → Bool) : Prop :=
  away p.tunName (p.afterwards env ok) = away p.tunName p.table

/-- What is left when the routing table is taken out. -/
def rest (p : LinuxRoutes) : LinuxRoutes :=
  { p with table := fun _ => none, routingConfigured := false, routing6Configured := false }

/-- Routes into the tunnel have replaced those for some destinations, and nothing else
    has changed that is off the tunnel. -/
structure Clears (p q : LinuxRoutes) (dsts : List Prefix) : Prop where
  rest : q.rest = p.rest
  cleared : ∀ x ∈ dsts, away p.tunName q.table x = none
  kept : ∀ x ∉ dsts, away p.tunName q.table x = away p.tunName p.table x
  host : ∀ x, 1 < x.length → q.table x = p.table x

section

variable {p q r : LinuxRoutes} {ok : Command → Bool} {dst : Prefix}

theorem tunName_congr (h : q.rest = p.rest) : q.tunName = p.tunName := by
  change q.rest.tunName = p.rest.tunName
  rw [h]

theorem tun_congr (h : q.rest = p.rest) : q.tun = p.tun := by
  rw [tun, tun, tunName_congr h]

theorem pin_congr (h : q.rest = p.rest) : q.pin = p.pin := by
  change q.rest.pin = p.rest.pin
  rw [h]

theorem host_congr (h : q.rest = p.rest) : q.host = p.host := by
  change q.rest.host = p.rest.host
  rw [h]

theorem origGateway_congr (h : q.rest = p.rest) : q.origGateway = p.origGateway := by
  change q.rest.origGateway = p.rest.origGateway
  rw [h]

theorem viaTunnel_congr (h : q.rest = p.rest) : q.viaTunnel = p.viaTunnel := by
  change q.rest.viaTunnel = p.rest.viaTunnel
  rw [h]

theorem hasV6_congr (h : q.rest = p.rest) : q.hasV6 = p.hasV6 := by
  change q.rest.hasV6 = p.rest.hasV6
  rw [h]

namespace Clears

theorem refl (p : LinuxRoutes) : Clears p p [] := by
  refine ⟨rfl, fun x hx => absurd hx List.not_mem_nil, fun _ _ => rfl, fun _ _ => rfl⟩

/-- The flags of the platform are no part of the table. -/
theorem congr {dsts : List Prefix} (h : Clears p q dsts) (hrest : r.rest = q.rest) (htable : r.table = q.table) :
    Clears p r dsts := by
  refine ⟨hrest.trans h.rest, ?_, ?_, ?_⟩ <;> rw [htable]
  exacts [h.cleared, h.kept, h.host]

theorem trans {dsts dsts' : List Prefix} (h : Clears p q dsts) (h' : Clears q r dsts') :
    Clears p r (dsts ++ dsts') := by
  have hcleared := h'.cleared
  have hkept := h'.kept
  rw [tunName_congr h.rest] at hcleared hkept
  refine ⟨h'.rest.trans h.rest, fun x hx => ?_, fun x hx => ?_, fun x hx => (h'.host x hx).trans (h.host x hx)⟩
  · by_cases hx' : x ∈ dsts'
    · exact hcleared x hx'
    · rw [hkept x hx']
      exact h.cleared x ((List.mem_append.1 hx).resolve_right hx')
  · rw [List.mem_append, not_or] at hx
    rw [hkept x hx.2, h.kept x hx.1]

end Clears

theorem away_update_of_ne {tunName : List Char} {table : Table} {x : Prefix} (hx : x ≠ dst) (o : Option Route) :
    away tunName (Function.update table dst o) x = away tunName table x := by
  rw [away, Function.update_of_ne hx, ← away]

theorem away_update_self {tunName : List Char} {table : Table} (o : Option Route) :
    away tunName (Function.update table dst o) dst = o.filter fun route => route.dev ≠ tunName := by
  rw [away, Function.update_self]

/-- A route into the tunnel replaces what was there. -/
theorem clears_replace (p : LinuxRoutes) (ok : Command → Bool) {dst : Prefix} (hdst : dst.length ≤ 1)
    {route : Route} (hdev : route.dev = p.tunName) :
    ∃ q, p.runIpCmd ok (.replace dst route) = (q, ok (.replace dst route)) ∧
      Clears p q (if ok (.replace dst route) then [dst] else []) := by
  rw [runIpCmd]
  cases hok : ok (.replace dst route) with
  | false => exact ⟨p, rfl, .refl p⟩
  | true =>
    refine ⟨_, rfl, rfl, fun x hx => ?_, fun x hx => ?_, fun x hx => ?_⟩
    · rw [if_pos rfl, List.mem_singleton] at hx
      subst hx
      rw [away_update_self]
      simp [hdev]
    · rw [if_pos rfl, List.mem_singleton] at hx
      exact away_update_of_ne hx _
    · refine Function.update_of_ne ?_ ..
      rintro rfl
      omega

/-- Only a route into the tunnel is deleted. -/
theorem clears_del (p : LinuxRoutes) (ok : Command → Bool) {dst : Prefix} (hdst : dst.length ≤ 1) :
    Clears p (p.runIpCmd ok (.del dst p.tun)).1 [] := by
  rw [runIpCmd]
  split_ifs
  · cases htable : p.table dst with
    | none =>
      rw [Command.apply, htable]
      exact .refl p
    | some old =>
      rw [Command.apply, htable]
      dsimp only
      split_ifs with hmatch
      · refine ⟨rfl, fun x hx => absurd hx List.not_mem_nil, fun x _ => ?_, fun x hx => ?_⟩
        · by_cases hx : x = dst
          · subst hx
            have hdev : old.dev = p.tunName := hmatch.1
            rw [away_update_self, away, htable]
            simp [Option.filter, hdev]
          · exact away_update_of_ne hx _
        · refine Function.update_of_ne ?_ ..
          rintro rfl
          omega
      · exact .refl p
  · exact .refl p

theorem clears_delTun (p : LinuxRoutes) (ok : Command → Bool) {dsts : List Prefix}
    (h : ∀ dst ∈ dsts, dst.length ≤ 1) : Clears p (p.delTun ok dsts) [] := by
  induction dsts generalizing p with
  | nil => exact .refl p
  | cons dst dsts ih =>
    exact (clears_del p ok (h dst List.mem_cons_self)).trans (ih _ fun x hx => h x (List.mem_cons_of_mem _ hx))

/-- The pin can be taken away. -/
def unpins (p : LinuxRoutes) (ok : Command → Bool) : Prop :=
  p.origGateway ≠ [] ∧ ok (.del p.host p.pin) = true

instance (p : LinuxRoutes) (ok : Command → Bool) : Decidable (p.unpins ok) := inferInstanceAs (Decidable (_ ∧ _))

theorem unpinServer_eq (hpin : p.origGateway ≠ [] → p.table p.host = some p.pin) (ok : Command → Bool) :
    p.unpinServer ok =
      if p.unpins ok then { p with table := Function.update p.table p.host none } else p := by
  rw [unpinServer]
  by_cases hgw : p.origGateway ≠ []
  · rw [if_pos hgw, runIpCmd]
    by_cases hok : ok (.del p.host p.pin) = true
    · have happly : Command.apply (.del p.host p.pin) p.table = some (Function.update p.table p.host none) := by
        rw [Command.apply, hpin hgw]
        exact if_pos ⟨rfl, .inr rfl⟩
      rw [if_pos hok, happly, if_pos (show p.unpins ok from ⟨hgw, hok⟩)]
    · rw [if_neg hok, if_neg fun h => hok h.2]
  · rw [if_neg hgw, if_neg fun h => hgw h.1]

/-! ## What the set-up and the clean-up do -/

/-- The destinations for which `redirect` replaces a route. -/
def redirected (p : LinuxRoutes) (ok : Command → Bool) : List Prefix :=
  if p.routeViaServer then if ok (.replace default4 p.viaTunnel) then [default4] else []
  else if ok (.replace low4 p.tun) then
    low4 :: if ok (.replace high4 p.tun) then [high4] else []
  else []

/-- The routes for IPv4 can be set. -/
def redirects (p : LinuxRoutes) (ok : Command → Bool) : Bool :=
  if p.routeViaServer then ok (.replace default4 p.viaTunnel)
  else ok (.replace low4 p.tun) && ok (.replace high4 p.tun)

/-- The destinations for which `redirect6` replaces a route. -/
def redirected6 (p : LinuxRoutes) (ok : Command → Bool) : List Prefix :=
  if p.hasV6 ∧ ok (.replace low6 p.tun) then
    low6 :: if ok (.replace high6 p.tun) then [high6] else []
  else []

theorem clears_redirect (p : LinuxRoutes) (ok : Command → Bool) :
    ∃ q, Clears p q (p.redirected ok) ∧
      p.redirect ok = if p.redirects ok then (q, true) else (q.unpinServer ok, false) := by
  have hl4 : low4.length ≤ 1 := by decide
  have hh4 : high4.length ≤ 1 := by decide
  have hd4 : default4.length ≤ 1 := by decide
  have hboth : ∀ dst ∈ [low4, high4], dst.length ≤ 1 := by decide
  rw [redirect, redirected, redirects]
  by_cases hvia : p.routeViaServer = true
  · rw [if_pos hvia, if_pos hvia, if_pos hvia]
    have hstale := clears_delTun p ok hboth
    generalize p.delTun ok [low4, high4] = p₁ at hstale ⊢
    have hvt := viaTunnel_congr hstale.rest
    have hdev : p₁.viaTunnel.dev = p₁.tunName := rfl
    obtain ⟨q, hq, hclears⟩ := clears_replace p₁ ok hd4 hdev
    dsimp only
    rw [hq]
    rw [hvt] at hclears ⊢
    refine ⟨q, hstale.trans hclears, ?_⟩
    cases ok (.replace default4 p.viaTunnel) <;> rfl
  · rw [if_neg hvia, if_neg hvia, if_neg hvia]
    have hdev : p.tun.dev = p.tunName := rfl
    obtain ⟨p₁, hp₁, hlow⟩ := clears_replace p ok hl4 hdev
    rw [hp₁]
    by_cases hok : ok (.replace low4 p.tun) = true
    · rw [hok] at hlow ⊢
      have htun := tun_congr hlow.rest
      have hdev₁ : p₁.tun.dev = p₁.tunName := rfl
      obtain ⟨p₂, hp₂, hhigh⟩ := clears_replace p₁ ok hh4 hdev₁
      rw [htun] at hhigh hp₂
      have hset := hlow.trans hhigh
      dsimp only
      rw [htun, hp₂]
      by_cases hok' : ok (.replace high4 p.tun) = true
      · rw [hok'] at hset ⊢
        exact ⟨p₂, hset, rfl⟩
      · -- The first route is set, and taken back.
        rw [Bool.not_eq_true] at hok'
        rw [hok'] at hset ⊢
        have hundo := hset.trans (clears_delTun p₂ ok hboth)
        rw [List.append_nil] at hundo
        exact ⟨_, hundo, rfl⟩
    · rw [Bool.not_eq_true] at hok
      rw [hok] at hlow ⊢
      exact ⟨_, hlow.trans (clears_delTun p₁ ok hboth), rfl⟩

theorem routingConfigured_runIpCmd (p : LinuxRoutes) (ok : Command → Bool) (cmd : Command) :
    (p.runIpCmd ok cmd).1.routingConfigured = p.routingConfigured := by
  rw [runIpCmd]
  split_ifs
  · cases cmd.apply p.table <;> rfl
  · rfl

theorem clears_redirect6 (p : LinuxRoutes) (ok : Command → Bool) :
    Clears p (p.redirect6 ok) (p.redirected6 ok) ∧
      (p.redirect6 ok).routingConfigured = p.routingConfigured := by
  have hl6 : low6.length ≤ 1 := by decide
  have hh6 : high6.length ≤ 1 := by decide
  rw [redirect6, redirected6]
  by_cases hv6 : p.hasV6 = true
  · rw [if_pos hv6]
    have hdev : p.tun.dev = p.tunName := rfl
    obtain ⟨p₁, hp₁, hlow⟩ := clears_replace p ok hl6 hdev
    have hc₁ := routingConfigured_runIpCmd p ok (.replace low6 p.tun)
    rw [hp₁] at hc₁ ⊢
    by_cases hok : ok (.replace low6 p.tun) = true
    · rw [if_pos ⟨hv6, hok⟩]
      rw [hok] at hlow hc₁ ⊢
      have htun := tun_congr hlow.rest
      have hdev₁ : p₁.tun.dev = p₁.tunName := rfl
      obtain ⟨p₂, hp₂, hhigh⟩ := clears_replace p₁ ok hh6 hdev₁
      have hc₂ := routingConfigured_runIpCmd p₁ ok (.replace high6 p₁.tun)
      rw [hp₂] at hc₂
      rw [htun] at hhigh hp₂
      have hset := hlow.trans hhigh
      dsimp only
      rw [htun, hp₂]
      by_cases hok' : ok (.replace high6 p.tun) = true
      · rw [hok'] at hset ⊢
        exact ⟨hset.congr rfl rfl, hc₂.trans hc₁⟩
      · rw [Bool.not_eq_true] at hok'
        rw [hok'] at hset ⊢
        exact ⟨hset, hc₂.trans hc₁⟩
    · rw [if_neg fun h => hok h.2]
      rw [Bool.not_eq_true] at hok
      rw [hok] at hlow hc₁ ⊢
      exact ⟨hlow, hc₁⟩
  · rw [if_neg hv6, if_neg fun h => hv6 h.1]
    exact ⟨.refl p, rfl⟩

theorem clears_cleanupRoutes (p : LinuxRoutes) (hc : p.routingConfigured = true) (ok : Command → Bool) :
    ∃ q, Clears p q [] ∧ p.cleanupRoutes ok = { q.unpinServer ok with routingConfigured := false } := by
  have h6 : ∀ dst ∈ [low6, high6], dst.length ≤ 1 := by decide
  have h4 : ∀ dst ∈ [default4, low4, high4], dst.length ≤ 1 := by decide
  rw [cleanupRoutes, if_neg (by rw [hc]; decide)]
  split_ifs
  · have hv6 : Clears p { p.delTun ok [low6, high6] with routing6Configured := false } [] :=
      (clears_delTun p ok h6).congr rfl rfl
    exact ⟨_, hv6.trans (clears_delTun _ ok h4), rfl⟩
  · exact ⟨_, clears_delTun p ok h4, rfl⟩

/-! ## When the routes are restored -/

theorem discoverLoop_frame (p : LinuxRoutes) (as : List Attempt) :
    (p.discoverLoop as).1.table = p.table ∧ (p.discoverLoop as).1.tunName = p.tunName := by
  have hget (p : LinuxRoutes) (out : Option (List Char)) :
      (p.discoverRoute out).1.table = p.table ∧ (p.discoverRoute out).1.tunName = p.tunName := by
    rw [discoverRoute.eq_def]
    split
    · exact ⟨rfl, rfl⟩
    · exact ⟨rfl, rfl⟩
    · split_ifs <;> exact ⟨rfl, rfl⟩
  have hshow (p : LinuxRoutes) (out : Option (List Char)) :
      (p.discoverRouteFromShow out).1.table = p.table ∧ (p.discoverRouteFromShow out).1.tunName = p.tunName := by
    rw [discoverRouteFromShow.eq_def]
    split
    · exact ⟨rfl, rfl⟩
    · exact ⟨rfl, rfl⟩
    · dsimp only
      split_ifs <;> exact ⟨rfl, rfl⟩
  induction as generalizing p with
  | nil => exact ⟨rfl, rfl⟩
  | cons a as ih =>
    have h₁ := hget p a.get
    rw [discoverLoop]
    generalize p.discoverRoute a.get = r₁ at h₁ ⊢
    obtain ⟨p₁, found₁⟩ := r₁
    cases found₁ with
    | true => exact h₁
    | false =>
      have h₂ := hshow p₁ a.shown
      dsimp only
      generalize p₁.discoverRouteFromShow a.shown = r₂ at h₂ ⊢
      obtain ⟨p₂, found₂⟩ := r₂
      have h₁₂ := And.intro (h₂.1.trans h₁.1) (h₂.2.trans h₁.2)
      cases found₂ with
      | true => exact h₁₂
      | false =>
        have h := ih p₂
        exact ⟨h.1.trans h₁₂.1, h.2.trans h₁₂.2⟩

theorem discover_frame (p : LinuxRoutes) (env : Env) :
    (p.discover env).1.table = p.table ∧ (p.discover env).1.tunName = p.tunName := by
  have h := discoverLoop_frame { p with serverIp := p.serverAddr }
    ((List.range routeDiscoverMaxAttempts).map env.attempt)
  rw [discover]
  generalize discoverLoop _ _ = r at h ⊢
  obtain ⟨q, found⟩ := r
  cases found with
  | true => exact h
  | false =>
    dsimp only
    split_ifs <;> exact h

theorem one_lt_saHostPrefix (addr : Addr) : 1 < saHostPrefix addr := by
  rw [saHostPrefix]
  split <;> decide

theorem length_of_mem_redirected {x : Prefix} (h : x ∈ p.redirected ok) : x.length ≤ 1 := by
  have hall : ∀ y ∈ [default4, low4, high4], y.length ≤ 1 := by decide
  refine hall x ?_
  rw [redirected] at h
  split_ifs at h <;> simp_all

theorem length_of_mem_redirected6 {x : Prefix} (h : x ∈ p.redirected6 ok) : x.length ≤ 1 := by
  have hall : ∀ y ∈ [low6, high6], y.length ≤ 1 := by decide
  refine hall x ?_
  rw [redirected6] at h
  split_ifs at h <;> simp_all

/-- The destinations for which the set-up replaces a route, but for the server. -/
def overwritten (p : LinuxRoutes) (ok : Command → Bool) : List Prefix :=
  p.redirected ok ++ if p.redirects ok then p.redirected6 ok else []

theorem length_of_mem_overwritten {x : Prefix} (h : x ∈ p.overwritten ok) : x.length ≤ 1 := by
  rcases List.mem_append.1 h with h4 | h6
  · exact length_of_mem_redirected h4
  · split_ifs at h6
    · exact length_of_mem_redirected6 h6
    · exact absurd h6 List.not_mem_nil

theorem redirected6_congr (h : q.rest = p.rest) : q.redirected6 ok = p.redirected6 ok := by
  rw [redirected6, redirected6, hasV6_congr h, tun_congr h]

/-- The platform once the server is pinned. -/
def pinned (p : LinuxRoutes) : LinuxRoutes where
  __ := p
  table := if p.origGateway ≠ [] then Function.update p.table p.host (some p.pin) else p.table

/-- Nothing but the pin is done for the server. -/
theorem table_host_of_clears {dsts : List Prefix} (hclears : Clears p.pinned q dsts) (hgw : p.origGateway ≠ []) :
    q.table q.host = some q.pin := by
  have hq : q.host = p.host := host_congr hclears.rest
  rw [hq, hclears.host _ (one_lt_saHostPrefix _), pin_congr hclears.rest]
  change (if p.origGateway ≠ [] then Function.update p.table p.host (some p.pin) else p.table) p.host = _
  rw [if_pos hgw, Function.update_self]
  rfl

/-- The route for the server once the pin was taken away, if that works. -/
theorem table_unpinServer_host {dsts : List Prefix} (hclears : Clears p.pinned q dsts)
    (hgw : p.origGateway ≠ []) (ok : Command → Bool) :
    (q.unpinServer ok).table p.host = if p.unpins ok then none else some p.pin := by
  have hat := table_host_of_clears hclears hgw
  have hq : q.host = p.host := host_congr hclears.rest
  have hpin : q.pin = p.pin := pin_congr hclears.rest
  have hunpins : q.unpins ok ↔ p.unpins ok := by
    rw [unpins, unpins, origGateway_congr hclears.rest, hq, hpin]
    rfl
  rw [unpinServer_eq fun _ => hat]
  by_cases hu : p.unpins ok
  · rw [if_pos hu, if_pos (hunpins.2 hu), hq]
    exact Function.update_self ..
  · rw [if_neg hu, if_neg (mt hunpins.1 hu), ← hq, hat, hpin]

/-- Off the pin, what is left is what the set-up has not overwritten. -/
theorem away_unpinServer {dsts : List Prefix} (hclears : Clears p.pinned q dsts) (ok : Command → Bool)
    {x : Prefix} (hx : p.origGateway ≠ [] → x ≠ p.host) :
    away p.tunName (q.unpinServer ok).table x = if x ∈ dsts then none else away p.tunName p.table x := by
  have hgw : q.origGateway = p.origGateway := origGateway_congr hclears.rest
  have hq : q.host = p.host := host_congr hclears.rest
  have hunpin : away p.tunName (q.unpinServer ok).table x = away p.tunName q.table x := by
    rw [unpinServer_eq fun hne => table_host_of_clears hclears (hgw ▸ hne)]
    split_ifs with hu
    · exact away_update_of_ne (hq ▸ hx (hgw ▸ hu.1)) _
    · rfl
  rw [hunpin]
  split_ifs with hmem
  · exact hclears.cleared x hmem
  · refine (hclears.kept x hmem).trans ?_
    change away p.tunName (if p.origGateway ≠ [] then Function.update p.table p.host (some p.pin) else p.table) x = _
    split_ifs with hne
    · exact away_update_of_ne (hx hne) _
    · rfl

/-- The route for the server that is left off the tunnel when the pin is, or is not,
    taken away. -/
def leftForServer (p : LinuxRoutes) (ok : Command → Bool) : Option Route :=
  (if p.unpins ok then none else some p.pin).filter fun route => route.dev ≠ p.tunName

/-- The routes off the tunnel, once the routes of a set-up were taken back. -/
theorem away_unpinServer_iff {dsts : List Prefix} (hclears : Clears p.pinned q dsts)
    (hdsts : ∀ x ∈ dsts, x.length ≤ 1) (ok : Command → Bool) :
    away p.tunName (q.unpinServer ok).table = away p.tunName p.table ↔
      (∀ x ∈ dsts, away p.tunName p.table x = none) ∧
        (p.origGateway ≠ [] → away p.tunName p.table p.host = p.leftForServer ok) := by
  have hhost : p.host ∉ dsts := fun h => absurd (hdsts _ h) (Nat.not_le.2 (one_lt_saHostPrefix _))
  have hserver : p.origGateway ≠ [] →
      away p.tunName (q.unpinServer ok).table p.host = p.leftForServer ok := fun hne => by
    rw [away, table_unpinServer_host hclears hne, leftForServer]
  constructor
  · intro h
    refine ⟨fun x hx => ?_, fun hne => ?_⟩
    · rw [← h, away_unpinServer hclears ok fun _ he => hhost (he ▸ hx), if_pos hx]
    · rw [← h]
      exact hserver hne
  · rintro ⟨hcleared, hleft⟩
    funext x
    by_cases hx : p.origGateway ≠ [] ∧ x = p.host
    · rw [hx.2, hserver hx.1, hleft hx.1]
    · rw [away_unpinServer hclears ok fun hne he => hx ⟨hne, he⟩]
      split_ifs with hmem
      · exact (hcleared x hmem).symm
      · rfl

theorem pinServer_eq (p : LinuxRoutes) (ok : Command → Bool) :
    p.pinServer ok =
      if p.origGateway ≠ [] ∧ ok (.replace p.host p.pin) = false then (p, false) else (p.pinned, true) := by
  rw [pinServer, pinned]
  by_cases hgw : p.origGateway ≠ []
  · rw [if_pos hgw, if_pos hgw, runIpCmd]
    by_cases hok : ok (.replace p.host p.pin) = true
    · rw [if_pos hok, if_neg fun h => Bool.false_ne_true (h.2.symm.trans hok)]
      rfl
    · rw [if_neg hok, if_pos ⟨hgw, Bool.eq_false_iff.2 hok⟩]
  · rw [if_neg hgw, if_neg hgw, if_neg fun h => hgw h.1]

/-- The server can be pinned, where it has to be. -/
def Pins (p : LinuxRoutes) (ok : Command → Bool) : Prop :=
  p.origGateway ≠ [] → ok (.replace p.host p.pin) = true

instance (p : LinuxRoutes) (ok : Command → Bool) : Decidable (p.Pins ok) := inferInstanceAs (Decidable (_ → _))

/-- A set-up that does not get past the pin changes nothing. -/
theorem setupRoutes_of_not_pins {p q : LinuxRoutes} {env : Env} {found : Bool}
    (hd : p.discover env = (q, found)) (h : ¬(found = true ∧ q.Pins env.ok)) :
    p.setupRoutes env = (q, false) := by
  rw [setupRoutes, hd]
  cases found with
  | false => rfl
  | true =>
    dsimp only
    rw [pinServer_eq, if_pos]
    have hpins : ¬q.Pins env.ok := fun hp => h ⟨rfl, hp⟩
    rw [Pins] at hpins
    push Not at hpins
    exact ⟨hpins.1, Bool.eq_false_iff.2 hpins.2⟩

/-- A set-up that does overwrites some routes, and what comes after it takes the pin
    away, if that works. -/
theorem setupRoutes_of_pins {p q : LinuxRoutes} {env : Env} (hd : p.discover env = (q, true))
    (hpins : q.Pins env.ok) (ok : Command → Bool) :
    (p.setupRoutes env).2 = q.redirects env.ok ∧
      ∃ r, Clears q.pinned r (q.overwritten env.ok) ∧
        p.afterwards env ok = (r.unpinServer (if q.redirects env.ok then ok else env.ok)).table := by
  have hpinned : q.pinServer env.ok = (q.pinned, true) := by
    rw [pinServer_eq, if_neg]
    rintro ⟨hgw, hok⟩
    exact Bool.false_ne_true (hok.symm.trans (hpins hgw))
  obtain ⟨r, hclears, hredirect⟩ := clears_redirect q.pinned env.ok
  rw [show q.pinned.redirects env.ok = q.redirects env.ok from rfl] at hredirect
  rw [overwritten]
  by_cases hdone : q.redirects env.ok = true
  · rw [if_pos hdone] at hredirect ⊢
    have hflag : Clears q.pinned { r with routingConfigured := true } (q.redirected env.ok) :=
      hclears.congr rfl rfl
    obtain ⟨hclears6, hconf⟩ := clears_redirect6 { r with routingConfigured := true } env.ok
    obtain ⟨t, hclears', hcleanup⟩ := clears_cleanupRoutes _ hconf ok
    have hsetup : p.setupRoutes env = ({ r with routingConfigured := true }.redirect6 env.ok, true) := by
      rw [setupRoutes, hd]
      dsimp only
      rw [hpinned]
      dsimp only
      rw [hredirect]
    have h6 : ({ r with routingConfigured := true } : LinuxRoutes).redirected6 env.ok =
        q.redirected6 env.ok := redirected6_congr (p := q) hclears.rest
    rw [h6] at hclears6
    have hall := (hflag.trans hclears6).trans hclears'
    rw [List.append_nil] at hall
    refine ⟨by rw [hsetup, hdone], t, hall, ?_⟩
    rw [afterwards, hsetup, if_pos hdone]
    dsimp only
    rw [if_pos rfl, hcleanup]
  · rw [if_neg hdone] at hredirect ⊢
    have hsetup : p.setupRoutes env = (r.unpinServer env.ok, false) := by
      rw [setupRoutes, hd]
      dsimp only
      rw [hpinned]
      dsimp only
      rw [hredirect]
    rw [Bool.not_eq_true] at hdone
    refine ⟨by rw [hsetup, hdone], r, by rw [List.append_nil]; exact hclears, ?_⟩
    rw [afterwards, hsetup, hdone]
    rfl

/-- Nothing is overwritten but routes into the tunnel, and the pin leaves behind what
    there was for the server: nothing if it is taken away, and itself otherwise. -/
def Restorable (p : LinuxRoutes) (env : Env) (ok : Command → Bool) : Prop :=
  let (q, found) := p.discover env
  found = true ∧ q.Pins env.ok →
    (∀ x ∈ q.overwritten env.ok, away p.tunName p.table x = none) ∧
    (q.origGateway ≠ [] → away p.tunName p.table q.host =
      q.leftForServer (if q.redirects env.ok then ok else env.ok))

/-- The host gets its routes back exactly when nothing is lost that was not the
    tunnel's. -/
theorem restores_iff (p : LinuxRoutes) (env : Env) (ok : Command → Bool) :
    p.Restores env ok ↔ p.Restorable env ok := by
  obtain ⟨htable, htun⟩ := p.discover_frame env
  rw [Restores, Restorable]
  cases hd : p.discover env with
  | mk q found =>
  rw [hd] at htable htun
  dsimp only at htable htun ⊢
  rw [← htable, ← htun]
  by_cases hpins : found = true ∧ q.Pins env.ok
  · obtain ⟨-, r, hclears, hafter⟩ := setupRoutes_of_pins (hpins.1 ▸ hd) hpins.2 ok
    rw [hafter]
    have hiff := away_unpinServer_iff hclears (fun x hx => length_of_mem_overwritten hx)
      (if q.redirects env.ok then ok else env.ok)
    exact hiff.trans ⟨fun h _ => h, fun h => h hpins⟩
  · have hafter : p.afterwards env ok = q.table := by
      rw [afterwards, setupRoutes_of_not_pins hd hpins]
      rfl
    rw [hafter]
    exact ⟨fun _ h => absurd h hpins, fun _ => rfl⟩

end

/-- The server in the samples. -/
def sampleServer : Addr := ⟨.v4, [203, 0, 113, 5]⟩

/-- A host with a route of its own for the server, through the gateway that leads
    everywhere else. -/
def pinnedHost : LinuxRoutes where
  serverAddr := sampleServer
  table := Function.update (Function.update (fun _ => none)
    default4 (some ⟨"192.168.1.1".toList, "eth0".toList⟩))
    ⟨sampleServer, 32⟩ (some ⟨"192.168.1.1".toList, "eth0".toList⟩)

/-- All commands work, and the way to the server is found at once. -/
def foundAtOnce : Env where
  attempt _ := { get := some "203.0.113.5 via 192.168.1.1 dev eth0 src 192.168.1.7 uid 0".toList }

/-- The route for the server is gone after the clean-up, though no command has failed. -/
theorem not_restores :
    (pinnedHost.setupRoutes foundAtOnce).2 = true ∧
    pinnedHost.table ⟨sampleServer, 32⟩ = some ⟨"192.168.1.1".toList, "eth0".toList⟩ ∧
    pinnedHost.afterwards foundAtOnce (fun _ => true) ⟨sampleServer, 32⟩ = none ∧
    ¬pinnedHost.Restores foundAtOnce fun _ => true := by
  have hfound : (pinnedHost.discover foundAtOnce).2 = true := by decide +kernel
  have hgw : (pinnedHost.discover foundAtOnce).1.origGateway ≠ [] := by decide +kernel
  have hhost : (pinnedHost.discover foundAtOnce).1.host = ⟨sampleServer, 32⟩ := by decide +kernel
  have hdone : (pinnedHost.discover foundAtOnce).1.redirects foundAtOnce.ok = true := by decide +kernel
  have haway : away pinnedHost.tunName pinnedHost.table ⟨sampleServer, 32⟩ ≠ none := by decide +kernel
  generalize hd : pinnedHost.discover foundAtOnce = d at hfound hgw hhost hdone
  obtain ⟨q, found⟩ := d
  dsimp only at hfound hgw hhost hdone
  subst hfound
  obtain ⟨hsetup, r, hclears, hafter⟩ := setupRoutes_of_pins hd (fun _ => rfl) fun _ => true
  have hgone := table_unpinServer_host hclears hgw fun _ => true
  rw [if_pos (show q.unpins fun _ => true from ⟨hgw, rfl⟩), hhost] at hgone
  rw [if_pos hdone] at hafter
  rw [← hafter] at hgone
  refine ⟨hsetup.trans hdone, rfl, hgone, fun h => haway ?_⟩
  rw [← congrFun h ⟨sampleServer, 32⟩, away, hgone]
  rfl

end LinuxRoutes

end Mqvpn
