import Mqvpn.Lib.Text
import Mqvpn.Hybrid.Flow

/-!
# The requests of the client

The client asks for the tunnel, and for every TCP flow of the TCP lane, with a list of
headers that it builds in an array; the server reads the lists, and the path of a flow once
more. The array for a flow has no room for the key and the name of a user together. But for
that, and for flows to port 0, which the server refuses, the server finds in the headers what
the client has put there (`agree_iff`).
-/

namespace Mqvpn.Hybrid

open Reorder Text

/-! ## Headers -/

/-- `xqc_http_header_t` -/
structure Header where
  name : String
  value : List Char

/-- A text in an array of `cap` characters. -/
structure CString (cap : Nat) where
  chars : List Char
  length_lt : chars.length < cap
  noNul : '\x00' ∉ chars

/-- What the client needs for its requests. -/
structure Client where
  serverHost : List Char
  serverPort : Nat
  authKey : CString 256
  authUsername : CString 64

variable (c : Client)

/-- `snprintf` into an array of `cap` characters. -/
def snprintf (cap : Nat) (s : List Char) : List Char := s.take (cap - 1)

/-- `cli_append_auth_header` -/
def cliAppendAuthHeader (hdrs : List Header) : List Header :=
  let hdrs :=
    if c.authKey.chars ≠ [] then
      hdrs ++ [{ name := "authorization", value := snprintf 300 ("Bearer ".toList ++ c.authKey.chars) }]
    else hdrs
  if c.authUsername.chars ≠ [] then hdrs ++ [{ name := "x-user", value := c.authUsername.chars }] else hdrs

def authority : List Char := snprintf 280 (c.serverHost ++ ':' :: decimal c.serverPort)

/-- `MQVPN_REORDER_HDR_NAME` and `MQVPN_REORDER_HDR_VALUE` -/
def reorderHeader : Header where
  name := "mqvpn-reorder"
  value := "v1".toList

/-- The length of the array of headers in `cli_masque_start_tunnel`. -/
def tunnelCapacity : Nat := 9

/-- The headers of `cli_masque_start_tunnel`; `advertise` is
    `mqvpn_reorder_should_advertise`. -/
def tunnelHeaders (advertise : Bool) : List Header :=
  let hdrs := cliAppendAuthHeader c
    [{ name := ":method", value := "CONNECT".toList },
      { name := ":protocol", value := "connect-ip".toList },
      { name := ":scheme", value := "https".toList },
      { name := ":authority", value := authority c },
      { name := ":path", value := "/.well-known/masque/ip/*/*/".toList },
      { name := "capsule-protocol", value := "?1".toList }]
  if advertise then hdrs ++ [reorderHeader] else hdrs

/-- `TCP_EGRESS_PATH_PREFIX` -/
def tcpPathPrefix : List Char := "/.well-known/mqvpn/tcp/".toList

/-- A byte of the destination of a flow. -/
def dstByte (key : FlowKey) (i : Nat) : Nat := (key.dstIp.1.getD i 0).toNat

/-- The destination of a flow as a dotted quad. -/
def dstHost (key : FlowKey) : List Char :=
  decimal (dstByte key 0) ++ '.' :: (decimal (dstByte key 1) ++ '.' :: (decimal (dstByte key 2) ++ '.' ::
    decimal (dstByte key 3)))

/-- The path of a flow in `cli_tcp_lane_open_stream`. -/
def flowPath (key : FlowKey) : List Char :=
  snprintf 64 (tcpPathPrefix ++ (dstHost key ++ '/' :: (decimal key.dstPort.toNat ++ ['/'])))

/-- The length of the array of headers in `cli_tcp_lane_open_stream`. -/
def flowCapacity : Nat := 6

/-- The headers of `cli_tcp_lane_open_stream`. -/
def flowHeaders (key : FlowKey) : List Header :=
  cliAppendAuthHeader c
    [{ name := ":method", value := "CONNECT".toList },
      { name := ":protocol", value := "mqvpn-tcp".toList },
      { name := ":scheme", value := "https".toList },
      { name := ":authority", value := authority c },
      { name := ":path", value := flowPath key }]

/-! ## The server -/

/-- `svr_req_headers_t`, and whether the client advertises the reorder shim -/
structure ReqHeaders where
  isConnect : Bool := false
  isConnectIp : Bool := false
  protocol : Option (List Char) := none
  hasSchemeHttps : Bool := false
  hasCapsuleProto : Bool := false
  hasValidPath : Bool := false
  path : Option (List Char) := none
  authToken : Option (List Char) := none
  xUser : List Char := []
  reorder : Bool := false

/-- A round of `svr_parse_request_headers`. -/
def parseHeader (out : ReqHeaders) (h : Header) : ReqHeaders :=
  let out := if h.name = ":method" ∧ h.value = "CONNECT".toList then { out with isConnect := true } else out
  let out :=
    if h.name = ":protocol" then
      { out with
        protocol := some h.value
        isConnectIp := out.isConnectIp || h.value = "connect-ip".toList }
    else out
  let out := if h.name = ":scheme" ∧ h.value = "https".toList then { out with hasSchemeHttps := true } else out
  let out :=
    if h.name = ":path" then
      { out with
        path := some h.value
        -- the last character of the prefix is not compared
        hasValidPath := out.hasValidPath || (24 ≤ h.value.length ∧ h.value.take 22 = "/.well-known/masque/ip".toList) }
    else out
  let out :=
    if h.name = "capsule-protocol" ∧ h.value = "?1".toList then { out with hasCapsuleProto := true } else out
  let out :=
    if h.name = "authorization" ∧ 7 < h.value.length ∧ h.value.take 7 = "Bearer ".toList then
      { out with authToken := some (h.value.drop 7) }
    else out
  let out :=
    if h.name = "x-user" ∧ h.value ≠ [] then
      { out with xUser := (h.value.take 63).takeWhile (· ≠ '\x00') }
    else out
  if h.name = reorderHeader.name ∧ h.value = reorderHeader.value then { out with reorder := true } else out

/-- `svr_parse_request_headers` -/
def svrParseRequestHeaders (hdrs : List Header) : ReqHeaders := hdrs.foldl parseHeader {}

/-- The loop over the digits of the port. -/
def parsePort (port : Nat) : List Char → Option Nat
  | [] => some port
  | c :: cs =>
    match digit c with
    | none => none
    | some d => if 65535 < port * 10 + d then none else parsePort (port * 10 + d) cs

/-- `svr_tcp_egress_parse_path`: the host and the port. -/
def svrTcpEgressParsePath (path : List Char) (outHostCap : Nat) : Option (List Char × Nat) :=
  if path.length ≤ tcpPathPrefix.length ∨ path.take tcpPathPrefix.length ≠ tcpPathPrefix then none
  else
    let p := path.drop tcpPathPrefix.length
    let host := p.takeWhile (· ≠ '/')
    match p.dropWhile (· ≠ '/') with
    | [] => none
    | _ :: rest =>
      if host.length = 0 ∨ outHostCap ≤ host.length then none
      else
        let digits := rest.takeWhile (· ≠ '/')
        if rest.dropWhile (· ≠ '/') ≠ ['/'] then none
        else if digits.length = 0 ∨ 5 < digits.length then none
        else
          match parsePort 0 digits with
          | none => none
          | some port => if port < 1 then none else some (host, port)

/-- The server finds in the headers what the client has put there, and the headers have room
    in their arrays. -/
structure Agree (c : Client) (key : FlowKey) (advertise : Bool) : Prop where
  tunnelFits : (tunnelHeaders c advertise).length ≤ tunnelCapacity
  tunnel : svrParseRequestHeaders (tunnelHeaders c advertise) =
    { isConnect := true
      isConnectIp := true
      protocol := some "connect-ip".toList
      hasSchemeHttps := true
      hasCapsuleProto := true
      hasValidPath := true
      path := some "/.well-known/masque/ip/*/*/".toList
      authToken := if c.authKey.chars = [] then none else some c.authKey.chars
      xUser := c.authUsername.chars
      reorder := advertise }
  flowFits : (flowHeaders c key).length ≤ flowCapacity
  flow : svrParseRequestHeaders (flowHeaders c key) =
    { isConnect := true
      protocol := some "mqvpn-tcp".toList
      hasSchemeHttps := true
      path := some (flowPath key)
      authToken := if c.authKey.chars = [] then none else some c.authKey.chars
      xUser := c.authUsername.chars }
  /-- The server's array for the host has 16 characters. -/
  destination : ∃ host, svrTcpEgressParsePath (flowPath key) 16 = some (host, key.dstPort.toNat) ∧
    inetPton4 host = some (((dstByte key 0 * 256 + dstByte key 1) * 256 + dstByte key 2) * 256 + dstByte key 3)

/-! ## The path of a flow -/

theorem length_dstHost (key : FlowKey) : 0 < (dstHost key).length ∧ (dstHost key).length < 16 := by
  have hbyte (i : Nat) : (decimal (dstByte key i)).length ≤ 3 :=
    length_decimal_le (by decide) (Nat.lt_of_lt_of_le (UInt8.toNat_lt _) (by decide))
  have h0 := hbyte 0
  have h1 := hbyte 1
  have h2 := hbyte 2
  have h3 := hbyte 3
  simp only [dstHost, List.length_append, List.length_cons]
  omega

theorem length_dstPort (key : FlowKey) : (decimal key.dstPort.toNat).length ≤ 5 :=
  length_decimal_le (by decide) (Nat.lt_of_lt_of_le (UInt16.toNat_lt _) (by decide))

theorem notMem_dstHost (key : FlowKey) : ∀ x ∈ dstHost key, decide (x ≠ '/') = true := by
  intro x hx
  have hdigit (n : Nat) (h : x ∈ decimal n) : x ≠ '/' := fun heq => notMem_decimal (by decide) n (heq ▸ h)
  have hdot (h : x = '.') : x ≠ '/' := by
    rw [h]
    decide
  simp only [dstHost, List.mem_append, List.mem_cons] at hx
  rcases hx with h | h | h | h | h | h | h
  · exact decide_eq_true (hdigit _ h)
  · exact decide_eq_true (hdot h)
  · exact decide_eq_true (hdigit _ h)
  · exact decide_eq_true (hdot h)
  · exact decide_eq_true (hdigit _ h)
  · exact decide_eq_true (hdot h)
  · exact decide_eq_true (hdigit _ h)

/-- The path is not cut. -/
theorem flowPath_eq (key : FlowKey) :
    flowPath key = tcpPathPrefix ++ (dstHost key ++ '/' :: (decimal key.dstPort.toNat ++ ['/'])) := by
  refine List.take_of_length_le ?_
  have hprefix : tcpPathPrefix.length = 23 := by decide
  have hhost := length_dstHost key
  have hport := length_dstPort key
  simp only [List.length_append, List.length_cons, List.length_nil]
  omega

/-- The digits of a number that is small enough are a port. -/
theorem parsePort_eq {s : List Char} {acc n : Nat} (h : digits acc s = (n, [])) (hn : n ≤ 65535) :
    parsePort acc s = some n := by
  induction s generalizing acc with
  | nil =>
    cases h
    rfl
  | cons c s ih =>
    rw [digits] at h
    rw [parsePort]
    split at h
    · rename_i d hd
      rw [hd]
      dsimp only
      have hle := le_of_digits h
      rw [if_neg (by omega)]
      exact ih h
    · cases h

/-- A part of the path ends at its slash. -/
theorem span_slash {s : List Char} (h : ∀ x ∈ s, decide (x ≠ '/') = true) (rest : List Char) :
    (s ++ '/' :: rest).takeWhile (fun x => decide (x ≠ '/')) = s ∧
      (s ++ '/' :: rest).dropWhile (fun x => decide (x ≠ '/')) = '/' :: rest := by
  constructor
  · rw [List.takeWhile_append_of_pos h, List.takeWhile_cons_of_neg (by decide), List.append_nil]
  · rw [List.dropWhile_append_of_pos h, List.dropWhile_cons_of_neg (by decide)]

/-- The server reads the destination off the path, except for port 0. -/
theorem parsePath_flowPath (key : FlowKey) :
    svrTcpEgressParsePath (flowPath key) 16 =
      if key.dstPort.toNat < 1 then none else some (dstHost key, key.dstPort.toNat) := by
  have hhost := length_dstHost key
  have hport := length_dstPort key
  have hpos := List.length_pos_iff.2 (decimal_ne_nil key.dstPort.toNat)
  have hdigits : ∀ x ∈ decimal key.dstPort.toNat, decide (x ≠ '/') = true := by
    intro x hx
    have hslash : '/' ∉ decimal key.dstPort.toNat := notMem_decimal (by decide) _
    refine decide_eq_true fun heq => hslash ?_
    rw [← heq]
    exact hx
  have hread := parsePort_eq (digits_decimal key.dstPort.toNat) (Nat.lt_succ_iff.1 (UInt16.toNat_lt key.dstPort))
  rw [svrTcpEgressParsePath, flowPath_eq, List.take_left, List.drop_left, if_neg]
  · dsimp only
    rw [(span_slash (notMem_dstHost key) _).1, (span_slash (notMem_dstHost key) _).2]
    dsimp only
    rw [(span_slash hdigits _).1, (span_slash hdigits _).2, if_neg (by omega), if_neg (by simp), if_neg (by omega),
      hread]
  · simp only [List.length_append, ne_eq, not_true_eq_false, or_false, List.length_cons]
    omega

/-! ## The headers one by one -/

/-- Only the last three rounds look at the other headers. -/
theorem parseHeader_of_ne (out : ReqHeaders) {h : Header} (hmethod : h.name ≠ ":method")
    (hprotocol : h.name ≠ ":protocol") (hscheme : h.name ≠ ":scheme") (hpath : h.name ≠ ":path")
    (hcapsule : h.name ≠ "capsule-protocol") :
    parseHeader out h =
      let out :=
        if h.name = "authorization" ∧ 7 < h.value.length ∧ h.value.take 7 = "Bearer ".toList then
          { out with authToken := some (h.value.drop 7) }
        else out
      let out :=
        if h.name = "x-user" ∧ h.value ≠ [] then
          { out with xUser := (h.value.take 63).takeWhile (· ≠ '\x00') }
        else out
      if h.name = reorderHeader.name ∧ h.value = reorderHeader.value then { out with reorder := true } else out := by
  simp only [parseHeader, hmethod, hprotocol, hscheme, hpath, hcapsule, false_and, if_false]

/-- A name that fits in the server's array is kept. -/
theorem parseHeader_xUser (out : ReqHeaders) {v : List Char} (h : v ≠ []) (hlen : v.length < 64) (hnul : '\x00' ∉ v) :
    parseHeader out { name := "x-user", value := v } = { out with xUser := v } := by
  have hcut : (v.take 63).takeWhile (fun x => decide (x ≠ '\x00')) = v := by
    have hmem : ∀ x ∈ v, decide (x ≠ '\x00') = true := by
      intro x hx
      refine decide_eq_true fun heq => hnul ?_
      rw [← heq]
      exact hx
    rw [List.take_of_length_le (by omega), ← List.append_nil v, List.takeWhile_append_of_pos hmem, List.takeWhile_nil]
  have hauth : "x-user" ≠ "authorization" := by decide
  have hreorder : "x-user" ≠ reorderHeader.name := by decide
  have hmethod : "x-user" ≠ ":method" := by decide
  have hprotocol : "x-user" ≠ ":protocol" := by decide
  have hscheme : "x-user" ≠ ":scheme" := by decide
  have hpath : "x-user" ≠ ":path" := by decide
  have hcapsule : "x-user" ≠ "capsule-protocol" := by decide
  rw [parseHeader_of_ne out hmethod hprotocol hscheme hpath hcapsule]
  dsimp only
  simp only [hauth, hreorder, h, hcut, ne_eq, not_false_eq_true, true_and, false_and, if_true, if_false]

theorem parseHeader_authorization (out : ReqHeaders) {v : List Char} (h : v ≠ []) :
    parseHeader out { name := "authorization", value := "Bearer ".toList ++ v } = { out with authToken := some v } := by
  have hbearer : "Bearer ".toList.length = 7 := by decide
  have hlen : 7 < ("Bearer ".toList ++ v).length := by
    have hpos := List.length_pos_iff.2 h
    rw [List.length_append, hbearer]
    omega
  have htake : ("Bearer ".toList ++ v).take 7 = "Bearer ".toList := by rw [← hbearer, List.take_left]
  have hdrop : ("Bearer ".toList ++ v).drop 7 = v := by rw [← hbearer, List.drop_left]
  have huser : "authorization" ≠ "x-user" := by decide
  have hreorder : "authorization" ≠ reorderHeader.name := by decide
  have hmethod : "authorization" ≠ ":method" := by decide
  have hprotocol : "authorization" ≠ ":protocol" := by decide
  have hscheme : "authorization" ≠ ":scheme" := by decide
  have hpath : "authorization" ≠ ":path" := by decide
  have hcapsule : "authorization" ≠ "capsule-protocol" := by decide
  rw [parseHeader_of_ne out hmethod hprotocol hscheme hpath hcapsule]
  dsimp only
  simp only [huser, hreorder, hlen, htake, hdrop, true_and, false_and, if_true, if_false]

/-- The path of a flow is not one of the tunnel. -/
theorem parseHeader_flowPath (out : ReqHeaders) (key : FlowKey) :
    parseHeader out { name := ":path", value := flowPath key } = { out with path := some (flowPath key) } := by
  have hvalid : (flowPath key).take 22 ≠ "/.well-known/masque/ip".toList := by
    have htake : (flowPath key).take 22 = tcpPathPrefix.take 22 := by
      rw [flowPath_eq]
      exact List.take_append_of_le_length (by decide)
    rw [htake]
    decide
  have hmethod : ":path" ≠ ":method" := by decide
  have hprotocol : ":path" ≠ ":protocol" := by decide
  have hscheme : ":path" ≠ ":scheme" := by decide
  have hcapsule : ":path" ≠ "capsule-protocol" := by decide
  have hauth : ":path" ≠ "authorization" := by decide
  have huser : ":path" ≠ "x-user" := by decide
  have hreorder : ":path" ≠ reorderHeader.name := by decide
  simp only [parseHeader, hmethod, hprotocol, hscheme, hcapsule, hauth, huser, hreorder, hvalid, and_false, decide_false,
    Bool.or_false, false_and, if_true, if_false]

/-- The key and the name of the user are read after what stands before them. -/
theorem parse_cliAppendAuthHeader (hdrs : List Header) :
    svrParseRequestHeaders (cliAppendAuthHeader c hdrs) =
      { svrParseRequestHeaders hdrs with
        authToken :=
          if c.authKey.chars = [] then (svrParseRequestHeaders hdrs).authToken else some c.authKey.chars
        xUser := if c.authUsername.chars = [] then (svrParseRequestHeaders hdrs).xUser else c.authUsername.chars } := by
  have hbearer : snprintf 300 ("Bearer ".toList ++ c.authKey.chars) = "Bearer ".toList ++ c.authKey.chars := by
    refine List.take_of_length_le ?_
    have hlen := c.authKey.length_lt
    have hprefix : "Bearer ".toList.length = 7 := by decide
    rw [List.length_append, hprefix]
    omega
  rw [cliAppendAuthHeader, hbearer]
  dsimp only
  -- the headers of the key and of the name are the last ones
  by_cases hkey : c.authKey.chars = [] <;> by_cases huser : c.authUsername.chars = [] <;>
    simp only [hkey, huser, ne_eq, not_true_eq_false, not_false_eq_true, if_true, if_false, svrParseRequestHeaders,
      List.foldl_append, List.foldl_cons, List.foldl_nil]
  · rw [parseHeader_xUser _ huser c.authUsername.length_lt c.authUsername.noNul]
  · rw [parseHeader_authorization _ hkey]
  · rw [parseHeader_authorization _ hkey, parseHeader_xUser _ huser c.authUsername.length_lt c.authUsername.noNul]

theorem length_cliAppendAuthHeader (hdrs : List Header) :
    (cliAppendAuthHeader c hdrs).length =
      hdrs.length + (if c.authKey.chars = [] then 0 else 1) + (if c.authUsername.chars = [] then 0 else 1) := by
  rw [cliAppendAuthHeader]
  by_cases hkey : c.authKey.chars = [] <;> by_cases huser : c.authUsername.chars = [] <;>
    simp only [hkey, huser, ne_eq, not_true_eq_false, not_false_eq_true, if_true, if_false, List.length_append,
      List.length_cons, List.length_nil, Nat.add_zero]

/-! ## What the server finds -/

/-- An empty name is as good as none. -/
theorem ite_authUsername : (if c.authUsername.chars = [] then [] else c.authUsername.chars) = c.authUsername.chars := by
  split
  · rename_i h
    rw [h]
  · rfl

theorem svrParse_tunnelHeaders (advertise : Bool) :
    svrParseRequestHeaders (tunnelHeaders c advertise) =
      { isConnect := true
        isConnectIp := true
        protocol := some "connect-ip".toList
        hasSchemeHttps := true
        hasCapsuleProto := true
        hasValidPath := true
        path := some "/.well-known/masque/ip/*/*/".toList
        authToken := if c.authKey.chars = [] then none else some c.authKey.chars
        xUser := c.authUsername.chars
        reorder := advertise } := by
  have hfixed : svrParseRequestHeaders
      [{ name := ":method", value := "CONNECT".toList },
        { name := ":protocol", value := "connect-ip".toList },
        { name := ":scheme", value := "https".toList },
        { name := ":authority", value := authority c },
        { name := ":path", value := "/.well-known/masque/ip/*/*/".toList },
        { name := "capsule-protocol", value := "?1".toList }] =
      { isConnect := true
        isConnectIp := true
        protocol := some "connect-ip".toList
        hasSchemeHttps := true
        hasCapsuleProto := true
        hasValidPath := true
        path := some "/.well-known/masque/ip/*/*/".toList } := rfl
  have hreorder (out : ReqHeaders) : parseHeader out reorderHeader = { out with reorder := true } := rfl
  rw [tunnelHeaders]
  cases advertise
  · rw [if_neg Bool.false_ne_true, parse_cliAppendAuthHeader, hfixed, ite_authUsername]
  · rw [if_pos rfl, svrParseRequestHeaders, List.foldl_append, ← svrParseRequestHeaders, parse_cliAppendAuthHeader,
      List.foldl_cons, List.foldl_nil, hreorder, hfixed, ite_authUsername]

theorem svrParse_flowHeaders (key : FlowKey) :
    svrParseRequestHeaders (flowHeaders c key) =
      { isConnect := true
        protocol := some "mqvpn-tcp".toList
        hasSchemeHttps := true
        path := some (flowPath key)
        authToken := if c.authKey.chars = [] then none else some c.authKey.chars
        xUser := c.authUsername.chars } := by
  -- the path is the last of the fixed headers
  have hfixed : svrParseRequestHeaders
      [{ name := ":method", value := "CONNECT".toList },
        { name := ":protocol", value := "mqvpn-tcp".toList },
        { name := ":scheme", value := "https".toList },
        { name := ":authority", value := authority c },
        { name := ":path", value := flowPath key }] =
      { isConnect := true
        protocol := some "mqvpn-tcp".toList
        hasSchemeHttps := true
        path := some (flowPath key) } :=
    parseHeader_flowPath
      { isConnect := true
        protocol := some "mqvpn-tcp".toList
        hasSchemeHttps := true } key
  rw [flowHeaders, parse_cliAppendAuthHeader, hfixed, ite_authUsername]

/-- The array for the tunnel has room for every header. -/
theorem tunnelHeaders_fit (advertise : Bool) : (tunnelHeaders c advertise).length ≤ tunnelCapacity := by
  have happend := length_cliAppendAuthHeader c
    [{ name := ":method", value := "CONNECT".toList },
      { name := ":protocol", value := "connect-ip".toList },
      { name := ":scheme", value := "https".toList },
      { name := ":authority", value := authority c },
      { name := ":path", value := "/.well-known/masque/ip/*/*/".toList },
      { name := "capsule-protocol", value := "?1".toList }]
  simp only [List.length_cons, List.length_nil] at happend
  rw [tunnelHeaders, tunnelCapacity]
  cases advertise
  · rw [if_neg Bool.false_ne_true, happend]
    split <;> split <;> decide
  · rw [if_pos rfl, List.length_append, happend]
    split <;> split <;> decide

/-- The array for a flow has no room for both the key and the name of the user. -/
theorem flowHeaders_fit (key : FlowKey) :
    (flowHeaders c key).length ≤ flowCapacity ↔ c.authKey.chars = [] ∨ c.authUsername.chars = [] := by
  rw [flowHeaders, length_cliAppendAuthHeader, flowCapacity]
  by_cases hkey : c.authKey.chars = [] <;> by_cases huser : c.authUsername.chars = [] <;>
    simp [hkey, huser]

/-- The server finds the address of the flow, and its port unless it is 0. -/
theorem destination_iff (key : FlowKey) :
    (∃ host, svrTcpEgressParsePath (flowPath key) 16 = some (host, key.dstPort.toNat) ∧
      inetPton4 host =
        some (((dstByte key 0 * 256 + dstByte key 1) * 256 + dstByte key 2) * 256 + dstByte key 3)) ↔
      key.dstPort.toNat ≠ 0 := by
  have hbyte (i : Nat) : dstByte key i < 256 := UInt8.toNat_lt _
  rw [parsePath_flowPath]
  constructor
  · rintro ⟨host, hparse, -⟩ hzero
    rw [if_pos (by omega)] at hparse
    cases hparse
  · intro hport
    rw [if_neg (by omega)]
    exact ⟨dstHost key, rfl, inetPton4_quad (hbyte 0) (hbyte 1) (hbyte 2) (hbyte 3)⟩

/-- The two sides agree exactly if the key and the name of the user are not used together, and
    the flow is not to port 0. -/
theorem agree_iff (key : FlowKey) (advertise : Bool) :
    Agree c key advertise ↔
      (c.authKey.chars = [] ∨ c.authUsername.chars = []) ∧ key.dstPort.toNat ≠ 0 := by
  constructor
  · intro h
    exact ⟨(flowHeaders_fit c key).1 h.flowFits, (destination_iff key).1 h.destination⟩
  · rintro ⟨hauth, hport⟩
    exact ⟨tunnelHeaders_fit c advertise, svrParse_tunnelHeaders c advertise, (flowHeaders_fit c key).2 hauth,
      svrParse_flowHeaders c key, (destination_iff key).2 hport⟩

/-- A client with a key for a user. -/
def sampleClient : Client where
  serverHost := "10.0.0.1".toList
  serverPort := 443
  authKey := ⟨"secret".toList, by decide, by decide⟩
  authUsername := ⟨"alice".toList, by decide, by decide⟩

/-- For a user with a key the seventh header of a flow is past the end of the array. -/
theorem auth_overruns : ¬ ∀ (c : Client) (key : FlowKey) (advertise : Bool), Agree c key advertise := by
  intro h
  have hfit := (h sampleClient sampleKey false).flowFits
  revert hfit
  decide

end Mqvpn.Hybrid
