import Mathlib.Data.List.DropRight
import RiAuth.Basic
import RiAuth.Lib.Checks
import RiAuth.Lib.Lists

/-!
# Headers through the proxy

The proxy authenticates a request with its own cookie, cleans the headers, sets its own ones and
sends the request to the application. What the application answers is cleaned on the way back.

* `outpostAuth`: the headers that say who the user is, and the cookies that are for the application;
* `clean`: the headers of a message that go on;
* `forward`, `reply`: the headers that the application sees, and those that the client sees;
* **`proxy_headers`**: identity cannot be forged, and cookies of the proxy do not leave it.
-/

namespace RiAuth.Proxy

open Checks

/-! ## Header maps -/

theorem toLower_toLower (c : Char) : c.toLower.toLower = c.toLower := by
  unfold Char.toLower
  split
  case isTrue hupper =>
    refine dif_neg fun hagain => ?_
    simp only [ge_iff_le, UInt32.le_iff_toNat_le, UInt32.toNat_add] at hupper hagain
    have hA : 'A'.val.toNat = 65 := rfl
    have hZ : 'Z'.val.toNat = 90 := rfl
    have hshift : ('a'.val - 'A'.val).toNat = 32 := rfl
    omega
  case isFalse => rfl

/-- `HeaderName`, which is in lower case. -/
structure Name where
  text : Text
  lower : text.map Char.toLower = text
deriving DecidableEq

@[ext] theorem Name.ext {a b : Name} (h : a.text = b.text) : a = b := by
  cases a
  cases b
  cases h
  rfl

/-- The name that a text is read as. -/
def Name.of (s : Text) : Name where
  text := s.map Char.toLower
  lower := by
    rw [List.map_map]
    exact List.map_congr_left fun c _ => toLower_toLower c

/-- A name that is written in the code. -/
def header (s : String) : Name := .of s.toList

/-- Headers by name. A value is the text of its bytes: each byte is the character of its number.
Only the order of the values of one name means anything. -/
abbrev Headers := List (Name × Text)

namespace Headers

/-- The values of a name. -/
def getAll (h : Headers) (name : Name) : List Text := (h.filter fun e => e.1 = name).map Prod.snd

/-- The headers without those of a name. -/
def remove (h : Headers) (name : Name) : Headers := h.filter fun e => e.1 ≠ name

/-- The header replaces those of its name. -/
def insert (h : Headers) (name : Name) (value : Text) : Headers := h.remove name ++ [(name, value)]

end Headers

/-- The bytes that a header value may have to be read as a text. -/
def isVisible (c : Char) : Bool := 32 ≤ c.toNat && c.toNat < 127 || c = '\t'

/-- `HeaderValue::to_str`. -/
def toStr (value : Text) : Option Text := if value.all isVisible then some value else none

/-- The bytes of a text. -/
def encode (s : Text) : Text := s.flatMap fun c =>
  if c.toNat < 128 then [c] else (String.utf8EncodeChar c).map fun b => Char.ofNat b.toNat

/-- `HeaderValue::from_str`: a text may also have characters that are not ASCII. -/
def fromStr (e : Error) (s : Text) : Result Text := do
  require ((s.all fun c => 32 ≤ c.toNat && c.toNat ≠ 127 || c = '\t') = true) e
  .ok (encode s)

/-- `single`: the value of a header that may be there once. -/
def single (h : Headers) (name : Name) : Result (Option Text) :=
  match h.getAll name with
  | [] => .ok none
  | value :: rest => do
    let value ← okOr (toStr value) (.bad "Invalid proxy header")
    require (rest = []) (.bad "Duplicate proxy routing or protocol header")
    .ok (some value)

/-- White space, among the visible characters. -/
def isSpace (c : Char) : Bool := c = ' ' || c = '\t'

/-- `str::trim`. -/
def trim (s : Text) : Text := (s.dropWhile isSpace).rdropWhile isSpace

/-- `split_once`. -/
def splitOnce (c : Char) (s : Text) : Option (Text × Text) :=
  if c ∈ s then some (s.takeWhile (· ≠ c), (s.dropWhile (· ≠ c)).tail) else none

/-! ## Names -/

/-- What a name is to an application behind CGI, WSGI or PHP. -/
def backendHeaderName (name : Text) : Text :=
  name.map fun c => if c.isAlphanum then c.toLower else '-'

/-- Whether a name has one of the marks. -/
def startsWithAny (prefixes : List String) (name : Text) : Bool :=
  prefixes.any fun p => p.toList.isPrefixOf name

/-- Headers only the proxy may set. -/
def identityHeader (name : Text) : Bool :=
  startsWithAny ["x-authentik-", "x-auth-", "x-riauth-"] (backendHeaderName name)

/-- Headers a request may not set. -/
def untrustedRequestHeader (name : Text) : Bool :=
  let name := backendHeaderName name
  decide (name ∈ ["host", "authorization", "cookie", "set-cookie", "forwarded"].map String.toList) ||
    identityHeader name ||
    startsWithAny ["x-forwarded-", "x-original-", "x-real-", "x-remote-", "remote-", "x-ssl-",
      "ssl-client-", "proxy-"] name

/-- A name a backend may read as another. -/
def ambiguousName (name : Text) : Bool :=
  let normalized := backendHeaderName name
  !name.all (fun c => c.isAlphanum || c = '-') &&
    (untrustedRequestHeader normalized ||
      decide (normalized ∈ ["origin", "connection", "upgrade", "content-length",
        "transfer-encoding"].map String.toList) ||
      startsWithAny ["sec-fetch-", "sec-websocket-"] normalized)

/-- No such name passes. -/
def rejectAmbiguousHeaders (h : Headers) : Result Unit :=
  require ((h.any fun e => ambiguousName e.1.text) = false) (.bad "Ambiguous proxy header name")

/-- Cookies of the proxy itself. -/
def privateCookie (name : Text) : Bool :=
  startsWithAny ["riauth_", "__Host-riauth_", "__Secure-riauth_"] name

/-! ## Cleaning -/

/-- The names that a header may have. -/
def isHeaderName (name : Text) : Bool :=
  decide (name ≠ []) && name.all fun c => c.isAlphanum || "!#$%&'*+-.^_`|~".toList.contains c

/-- A header name that Connection lists. -/
def connectionToken (name : Text) : Result Name := do
  let name := Name.of (trim name)
  require (isHeaderName name.text = true) (.bad "Invalid Connection header token")
  .ok name

/-- All that Connection lists. -/
def connectionTokens (h : Headers) : Result (List Name) := do
  let lists ← (h.getAll (header "connection")).mapM fun value => do
    let value ← okOr (toStr value) (.bad "Invalid Connection header")
    (value.splitOn ',').mapM connectionToken
  .ok lists.flatten

/-- Headers of one connection. -/
def hopByHop : List Name :=
  ["connection", "keep-alive", "proxy-authenticate", "proxy-authorization", "te", "trailer",
    "transfer-encoding", "upgrade", "content-length"].map header

/-- An application takes the name for one of a hop. -/
def HopName (name : Name) : Prop := backendHeaderName name.text ∈ hopByHop.map Name.text

instance (name : Name) : Decidable (HopName name) := inferInstanceAs (Decidable (_ ∈ _))

theorem hopName_of_mem {name : Name} (h : name ∈ hopByHop) : HopName name :=
  (by decide : ∀ name ∈ hopByHop, HopName name) name h

/-- The value sets a cookie of the proxy. -/
def setsPrivateCookie (value : Text) : Bool :=
  ((toStr value).bind (splitOnce '=')).any fun cookie => privateCookie (trim cookie.1)

/-- The headers that may go on. -/
def clean (h : Headers) : Result Headers := do
  let tokens ← connectionTokens h
  .ok (h.filter fun e => !(decide (e.1 ∈ hopByHop ++ tokens) || identityHeader e.1.text ||
    decide (e.1 = header "set-cookie") && setsPrivateCookie e.2))

/-! ## Who the user is -/

/-- The name and value of a cookie. -/
def cookiePairs (value : Text) : List (Text × Text) :=
  (value.splitOn ';').filterMap fun part => splitOnce '=' (trim part)

/-- A cookie that may come once. -/
def findCookie (name : Text) (found : Option Text) (c : Text × Text) : Result (Option Text) :=
  if c.1 = name then do
    require (found = none ∧ c.2.length ≤ 256) (.bad "Duplicate or oversized proxy cookie")
    .ok (some c.2)
  else .ok found

/-- The value of the cookie of the proxy. -/
def cookie (h : Headers) (name : Text) : Result (Option Text) :=
  (h.getAll (header "cookie")).foldlM (fun found value => do
    let value ← okOr (toStr value) (.bad "Invalid cookie")
    (cookiePairs value).foldlM (findCookie name) found) none

/-- The cookies of a request. -/
def cookies (h : Headers) : List (Text × Text) :=
  ((h.getAll (header "cookie")).filterMap toStr).flatMap cookiePairs

/-- The cookies the application gets. -/
def appCookies (h : Headers) : Text :=
  "; ".toList.intercalate (((cookies h).filter fun c => !privateCookie c.1).map
    fun c => c.1 ++ '=' :: c.2)

/-- What the proxy knows about a user. -/
structure Identity where
  username : Text
  subject : Text
  displayName : Text
  email : Text
  groups : List Text

/-- The headers that tell the user. -/
def Identity.headers (i : Identity) : Headers :=
  [(header "x-authentik-username", i.username), (header "x-authentik-uid", i.subject),
    (header "x-authentik-name", i.displayName), (header "x-authentik-email", i.email),
    (header "x-authentik-groups", "|".toList.intercalate i.groups),
    (header "x-auth-user", i.username), (header "x-auth-sub", i.subject)]

/-- Where a protected application is seen from outside. -/
structure Route where
  external : Text
  authority : Text
  scheme : Text

/-- What the proxy computes with: its routes, all other checks of a request, the session of a
cookie, and the codecs of third parties. -/
structure Env where
  routes : Text → Option Route
  guard : Route → Headers → Result Unit
  cookieName : Route → Text
  session : Route → Option Text → Result Identity
  /-- The base64 form of sixteen bytes. -/
  validKey : Text → Bool
  acceptKey : Text → Text
  /-- The location at the proxy of one at the application. -/
  relocate : Route → Text → Option Text

/-- The answer to an outpost. -/
def outpostAuth (env : Env) (route : Route) (h : Headers) : Result Headers := do
  let token ← cookie h (env.cookieName route)
  let identity ← env.session route token
  let app ← fromStr (.bad "Invalid application cookie") (appCookies h)
  let own ← identity.headers.mapM fun e => do
    let value ← fromStr (.bad "Identity attribute cannot be represented in a proxy header") e.2
    .ok (e.1, value)
  .ok ((header "x-riauth-app-cookie", app) :: own)

/-! ## Requests -/

/-- A request as it reaches the server. -/
structure Request where
  method : Text
  pathQuery : Text
  /-- The address of the peer. -/
  peer : Text
  headers : Headers

/-- Whether an upgrade asks for WebSocket. -/
def isWebSocket (upgrade : Option Text) : Bool :=
  upgrade.any fun v => v.map Char.toLower = "websocket".toList

/-- The key of a WebSocket handshake. -/
def webSocketKey (env : Env) (route : Route) (r : Request) : Result Text := do
  require (r.method = "GET".toList) .forbidden
  let upgrade ← single r.headers (header "upgrade")
  require (isWebSocket upgrade = true) .forbidden
  let tokens ← connectionTokens r.headers
  require (header "upgrade" ∈ tokens) .forbidden
  let version ← single r.headers (header "sec-websocket-version")
  require (version = some "13".toList) .forbidden
  let origin ← single r.headers (header "origin")
  require (origin = some route.external) .forbidden
  let key ← single r.headers (header "sec-websocket-key")
  let key ← okOr (key.filter env.validKey) (.bad "Invalid WebSocket key")
  let _ ← single r.headers (header "sec-websocket-protocol")
  .ok key

/-- The headers of an upgrade. -/
def webSocketHeaders : Headers :=
  [(header "upgrade", "websocket".toList), (header "connection", "Upgrade".toList)]

/-- The headers of the handshake. -/
def handshakeNames : List Name :=
  ["sec-websocket-key", "sec-websocket-version", "sec-websocket-protocol",
    "sec-websocket-extensions"].map header

/-- Each header replaces those of its name. -/
def insertAll (own h : Headers) : Headers := own.foldl (fun h e => h.insert e.1 e.2) h

/-- A request that goes to the application: its route and headers, and the key of a handshake. -/
def forward (env : Env) (r : Request) : Result (Route × Headers × Option Text) := do
  rejectAmbiguousHeaders r.headers
  let host ← single r.headers (header "host")
  let host ← okOr host (.bad "Host is required")
  let route ← okOr (env.routes host) (.missing "Proxy origin not configured")
  env.guard route r.headers
  let url ← fromStr (.bad "Invalid proxy request URL") (route.external ++ r.pathQuery)
  let upgrade ← single r.headers (header "upgrade")
  let identity ← outpostAuth env route (r.headers.insert (header "x-original-url") url)
  let headers ← clean r.headers
  let headers := headers.filter fun e => !untrustedRequestHeader e.1.text
  let headers := insertAll (identity.remove (header "x-riauth-app-cookie")) headers
  let headers := insertAll (((identity.getAll (header "x-riauth-app-cookie")).filter (· ≠ [])).map
    fun value => (header "cookie", value)) headers
  let authority ← fromStr .internal route.authority
  let scheme ← fromStr .internal route.scheme
  let peer ← fromStr .internal r.peer
  let headers := insertAll [(header "x-forwarded-host", authority),
    (header "x-forwarded-proto", scheme), (header "x-forwarded-for", peer)] headers
  if upgrade.isSome then do
    let key ← webSocketKey env route r
    .ok (route, insertAll webSocketHeaders headers, some key)
  else .ok (route, headers.filter fun e => !decide (e.1 ∈ handshakeNames), none)

/-! ## Replies -/

/-- The backend's upgrade is refused. -/
def invalidUpgrade (message : String) : Error := ⟨502, "invalid_upgrade", message⟩

/-- The application accepts the handshake. -/
def checkHandshake (env : Env) (key offered : Text) (status : ℕ) (h : Headers) : Result Unit := do
  let refused := invalidUpgrade "Application rejected the WebSocket handshake"
  require (status = 101) refused
  let accept ← single h (header "sec-websocket-accept")
  require (accept = some (env.acceptKey key)) refused
  let upgrade ← single h (header "upgrade")
  require (isWebSocket upgrade = true) refused
  let tokens ← connectionTokens h
  require (header "upgrade" ∈ tokens) refused
  let selected ← single h (header "sec-websocket-protocol")
  require (∀ s ∈ selected, s ≠ [] ∧ s ∈ (offered.splitOn ',').map trim)
    (invalidUpgrade "Application selected an unrequested WebSocket protocol")

/-- What the client sees of the headers of the application. -/
def reply (env : Env) (route : Route) (key : Option Text) (offered : Text) (status : ℕ)
    (h : Headers) : Result Headers := do
  let out ← clean h
  let location ← single out (header "location")
  let out ← (match location.bind (env.relocate route) with
    | none => .ok out
    | some location => do
      let location ← fromStr .internal location
      .ok (out.insert (header "location") location) : Result Headers)
  match key with
  | some key => do
    checkHandshake env key offered status h
    .ok (insertAll webSocketHeaders out)
  | none => do
    require (status ≠ 101) (invalidUpgrade "Unexpected upstream upgrade")
    .ok out

/-! ## Cookies -/

section

variable {c : Text × Text}

theorem trim_trim (s : Text) : trim (trim s) = trim s := by
  suffices hstart : (trim s).dropWhile isSpace = trim s by
    rw [trim, hstart, trim, List.rdropWhile_idempotent]
  cases htrim : trim s with
  | nil => rfl
  | cons c rest =>
    -- what is left starts as it did before the end was cut off
    obtain ⟨cut, hcut⟩ := List.rdropWhile_prefix isSpace (s.dropWhile isSpace)
    rw [← trim, htrim] at hcut
    have hstart := List.dropWhile_idempotent isSpace s
    rw [← hcut] at hstart
    refine List.dropWhile_cons_of_neg fun hspace => ?_
    rw [List.cons_append, List.dropWhile_cons_of_pos hspace] at hstart
    have hlength := (List.dropWhile_suffix isSpace (l := rest ++ cut)).length_le
    rw [hstart, List.length_cons] at hlength
    omega

theorem trim_cons_space (s : Text) : trim (' ' :: s) = trim s := rfl

theorem trim_subset (s : Text) : trim s ⊆ s :=
  List.Subset.trans (List.rdropWhile_prefix isSpace _).subset (List.dropWhile_suffix isSpace).subset

/-- A cookie as it stands in a header. -/
def format (c : Text × Text) : Text := c.1 ++ '=' :: c.2

theorem splitOnce_some {s : Text} {x : Char} (h : splitOnce x s = some c) :
    s = c.1 ++ x :: c.2 ∧ x ∉ c.1 := by
  unfold splitOnce at h
  split_ifs at h with hmem
  cases h
  have hne : s.dropWhile (· ≠ x) ≠ [] := by
    rw [Ne, List.dropWhile_eq_nil_iff]
    intro hall
    simpa using hall x hmem
  have hhead : (s.dropWhile (· ≠ x)).head hne = x := by
    simpa using List.head_dropWhile_not (fun d => decide (d ≠ x)) hne
  refine ⟨?_, fun hx => by simpa using List.mem_takeWhile_imp hx⟩
  conv_lhs => rw [← List.takeWhile_append_dropWhile (p := fun d => decide (d ≠ x)) (l := s),
    ← List.cons_head_tail hne, hhead]

theorem splitOnce_format (h : '=' ∉ c.1) : splitOnce '=' (format c) = some c := by
  have hall : ∀ d ∈ c.1, decide (d ≠ '=') = true := by
    intro d hd
    rw [decide_eq_true_eq]
    rintro rfl
    exact h hd
  unfold splitOnce format
  rw [if_pos (by simp), List.takeWhile_append_of_pos hall, List.dropWhile_append_of_pos hall]
  simp

/-- A cookie that can be read back. -/
structure Readable (c : Text × Text) : Prop where
  whole : ';' ∉ format c
  trimmed : trim (format c) = format c
  split : splitOnce '=' (format c) = some c

/-- A cookie can be read back, and has no other characters than the header. -/
theorem readable_of_mem {value : Text} (h : c ∈ cookiePairs value) :
    Readable c ∧ format c ⊆ value := by
  obtain ⟨part, hpart, hsplit⟩ := List.mem_filterMap.mp h
  obtain ⟨heq, hname⟩ := splitOnce_some hsplit
  obtain ⟨hwhole, hsub⟩ := List.mem_splitOn hpart
  have hformat : format c = trim part := heq.symm
  refine ⟨⟨?_, ?_, splitOnce_format hname⟩, ?_⟩
  · rw [hformat]
    exact fun hmem => hwhole (trim_subset part hmem)
  · rw [hformat, trim_trim]
  · rw [hformat]
    exact List.Subset.trans (trim_subset part) hsub

theorem toStr_some {value s : Text} (h : toStr value = some s) :
    s = value ∧ value.all isVisible = true := by
  unfold toStr at h
  split_ifs at h with hall
  cases h
  exact ⟨rfl, hall⟩

theorem readable_of_mem_cookies {h : Headers} (hc : c ∈ cookies h) :
    Readable c ∧ (format c).all isVisible = true := by
  obtain ⟨value, hvalue, hc⟩ := List.mem_flatMap.mp hc
  obtain ⟨value', -, hread⟩ := List.mem_filterMap.mp hvalue
  obtain ⟨rfl, hvisible⟩ := toStr_some hread
  obtain ⟨hreadable, hsub⟩ := readable_of_mem hc
  exact ⟨hreadable, List.all_eq_true.mpr fun d hd => List.all_eq_true.mp hvisible d (hsub hd)⟩

theorem all_intercalate {p : Char → Bool} {sep : Text} (hsep : sep.all p = true) {parts : List Text}
    (h : ∀ part ∈ parts, part.all p = true) : (sep.intercalate parts).all p = true := by
  induction parts with
  | nil => rfl
  | cons part parts ih =>
    obtain ⟨hpart, hparts⟩ := List.forall_mem_cons.mp h
    cases parts with
    | nil => rwa [List.intercalate_singleton]
    | cons part' parts =>
      rw [List.intercalate_cons_cons, List.all_append, List.all_append, hpart, hsep, ih hparts]
      rfl

theorem appCookies_visible (h : Headers) : (appCookies h).all isVisible = true := by
  refine all_intercalate (by decide) fun part hpart => ?_
  obtain ⟨c, hc, rfl⟩ := List.mem_map.mp hpart
  exact (readable_of_mem_cookies (List.mem_filter.mp hc).1).2

theorem encode_eq_self {s : Text} (h : s.all isVisible = true) : encode s = s := by
  induction s with
  | nil => rfl
  | cons c s ih =>
    rw [List.all_cons, Bool.and_eq_true] at h
    have hc : c.toNat < 128 := by
      obtain hc | hc := (Bool.or_eq_true _ _).mp h.1
      · have := of_decide_eq_true (Bool.and_eq_true_iff.mp hc).2
        omega
      · rw [of_decide_eq_true hc]
        decide
    have hs := ih h.2
    unfold encode at hs ⊢
    rw [List.flatMap_cons, hs, if_pos hc]
    rfl

theorem cookiePairs_cons_space (s : Text) : cookiePairs (' ' :: s) = cookiePairs s := by
  unfold cookiePairs
  rw [List.splitOn_cons_eq_if_modifyHead, if_neg (by decide)]
  cases hs : s.splitOn ';' with
  | nil => exact absurd hs (List.splitOn_ne_nil _ _)
  | cons first rest => simp only [List.modifyHead_cons, List.filterMap_cons, trim_cons_space]

/-- **Cookies that are joined are read back as they are.** -/
theorem cookiePairs_join {cs : List (Text × Text)} (h : ∀ c ∈ cs, Readable c) :
    cookiePairs ("; ".toList.intercalate (cs.map format)) = cs := by
  induction cs with
  | nil => decide
  | cons c cs ih =>
    obtain ⟨hc, hcs⟩ := List.forall_mem_cons.mp h
    cases cs with
    | nil =>
      rw [List.map_singleton, List.intercalate_singleton, cookiePairs,
        List.splitOn_eq_singleton hc.whole, List.filterMap_cons, hc.trimmed, hc.split]
      rfl
    | cons c' cs =>
      have hjoin : "; ".toList.intercalate ((c :: c' :: cs).map format) =
          format c ++ ';' :: ' ' :: "; ".toList.intercalate ((c' :: cs).map format) := by
        rw [List.map_cons, List.map_cons, List.intercalate_cons_cons, List.append_assoc]
        rfl
      rw [hjoin, cookiePairs, List.splitOn_append_cons_self_of_not_mem hc.whole,
        List.filterMap_cons, hc.trimmed, hc.split]
      exact congrArg (c :: ·) ((cookiePairs_cons_space _).trans (ih hcs))

end

/-! ## What the application sees -/

section

variable {env : Env} {route : Route} {h : Headers} {key : Option Text} {r : Request}

theorem getAll_insert_ne {name name' : Name} (hne : name ≠ name') (value : Text) :
    (h.insert name' value).getAll name = h.getAll name := by
  unfold Headers.insert Headers.remove Headers.getAll
  rw [List.filter_append, List.filter_filter]
  have hlast : [(name', value)].filter (fun e => decide (e.1 = name)) = [] := by
    simp [Ne.symm hne]
  rw [hlast, List.append_nil]
  congr 2
  funext e
  by_cases heq : e.1 = name <;> simp [heq, hne]

/-- Headers with new names are put after the others. -/
theorem insertAll_eq {own : Headers} (hown : (own.map Prod.fst).Nodup)
    (hnew : ∀ e ∈ h, e.1 ∉ own.map Prod.fst) : insertAll own h = h ++ own := by
  induction own generalizing h with
  | nil => exact (List.append_nil h).symm
  | cons o own ih =>
    obtain ⟨ho, hown⟩ := List.nodup_cons.mp hown
    have hinsert : h.insert o.1 o.2 = h ++ [o] := by
      rw [Headers.insert, Headers.remove, List.filter_eq_self.mpr fun e he => ?_]
      exact decide_eq_true fun heq => hnew e he (heq ▸ List.mem_cons_self)
    change insertAll own (h.insert o.1 o.2) = _
    rw [hinsert, ih hown, List.append_assoc]
    · rfl
    · intro e he hmem
      obtain he | he := List.mem_append.mp he
      · exact hnew e he (List.mem_cons_of_mem _ hmem)
      · rw [List.mem_singleton.mp he] at hmem
        exact ho hmem

theorem fromStr_ok {e : Error} {s s' : Text} (h : fromStr e s = .ok s') : s' = encode s := by
  unfold fromStr at h
  obtain ⟨-, h⟩ := seq_ok.mp h
  cases h
  rfl

/-- Every value of a cookie header was read. -/
theorem cookie_ok {name : Text} {found : Option Text} (hc : cookie h name = .ok found) :
    ∀ value ∈ h.getAll (header "cookie"), toStr value = some value := by
  intro value hvalue
  obtain ⟨s, s', hstep⟩ := foldlM_ok hc value hvalue
  obtain ⟨value', hread, -⟩ := bind_ok.mp hstep
  have hread := okOr_ok.mp hread
  rwa [(toStr_some hread).1] at hread

theorem outpostAuth_ok {ids : Headers} (ha : outpostAuth env route h = .ok ids) :
    ∃ token who, cookie h (env.cookieName route) = .ok token ∧ env.session route token = .ok who ∧
      ids = (header "x-riauth-app-cookie", appCookies h) ::
        who.headers.map fun e => (e.1, encode e.2) := by
  unfold outpostAuth at ha
  obtain ⟨token, htoken, ha⟩ := bind_ok.mp ha
  obtain ⟨who, hwho, ha⟩ := bind_ok.mp ha
  obtain ⟨app, happ, ha⟩ := bind_ok.mp ha
  obtain ⟨own, hown, ha⟩ := bind_ok.mp ha
  cases ha
  refine ⟨token, who, htoken, hwho, ?_⟩
  have hsame : who.headers.map (fun e => (e.1, encode e.2)) = own := by
    refine List.forall₂_eq_eq_eq ▸ List.forall₂_map_left_iff.mpr ((mapM_ok.mp hown).imp ?_)
    intro e e' he
    obtain ⟨value, hvalue, he⟩ := bind_ok.mp he
    cases he
    rw [fromStr_ok hvalue]
  rw [hsame, fromStr_ok happ, encode_eq_self (appCookies_visible h)]

/-- The headers that the proxy sets itself. -/
def ownHeaders (who : Identity) (app : Text) (route : Route) (peer : Text) : Headers :=
  who.headers.map (fun e => (e.1, encode e.2)) ++
    ([app].filter (· ≠ [])).map (fun value => (header "cookie", value)) ++
    [(header "x-forwarded-host", encode route.authority),
      (header "x-forwarded-proto", encode route.scheme), (header "x-forwarded-for", encode peer)]

/-- The headers the proxy sets. -/
def ownNames (app : Text) : List Name :=
  (["x-authentik-username", "x-authentik-uid", "x-authentik-name", "x-authentik-email",
      "x-authentik-groups", "x-auth-user", "x-auth-sub"] ++ (if app = [] then [] else ["cookie"]) ++
    ["x-forwarded-host", "x-forwarded-proto", "x-forwarded-for"]).map header

theorem map_fst_ownHeaders (who : Identity) (app : Text) (route : Route) (peer : Text) :
    (ownHeaders who app route peer).map Prod.fst = ownNames app := by
  unfold ownHeaders ownNames
  by_cases happ : app = []
  · rw [if_pos happ, List.filter_cons_of_neg (by simp [happ])]
    rfl
  · rw [if_neg happ, List.filter_cons_of_pos (by simp [happ])]
    rfl

/-- The names that the proxy sets are different ones to any application, are not trusted from the
client, and none is that of a hop or of a handshake. -/
theorem ownNames_spec (app : Text) :
    ((ownNames app).map fun name => backendHeaderName name.text).Nodup ∧ (ownNames app).Nodup ∧
      ∀ name ∈ ownNames app, untrustedRequestHeader name.text = true ∧ ¬ HopName name ∧
        name ∉ handshakeNames := by
  unfold ownNames
  by_cases happ : app = []
  · rw [if_pos happ]
    decide
  · rw [if_neg happ]
    decide

/-- A header of the client that goes on. -/
structure Trusted (h : Headers) (tokens : List Name) (e : Name × Text) : Prop where
  mem : e ∈ h
  plain : ambiguousName e.1.text = false
  kept : e.1 ∉ hopByHop ++ tokens
  trusted : untrustedRequestHeader e.1.text = false

/-- A name of plain characters is the one that applications see. -/
theorem backendHeaderName_of_plain {name : Name}
    (h : name.text.all (fun c => c.isAlphanum || c = '-') = true) :
    backendHeaderName name.text = name.text := by
  have hlower : ∀ c ∈ name.text, c.toLower = c :=
    List.map_inj_left.mp (name.lower.trans (List.map_id _).symm)
  refine (List.map_congr_left fun c hc => ?_).trans (List.map_id _)
  by_cases halnum : c.isAlphanum = true
  · rw [if_pos halnum]
    exact hlower c hc
  · have hdash := List.all_eq_true.mp h c hc
    rw [if_neg halnum]
    simpa [halnum, eq_comm] using hdash

/-- A name that applications see without a dash has plain characters. -/
theorem plain_of_not_mem {name : Text} (h : '-' ∉ backendHeaderName name) :
    name.all (fun c => c.isAlphanum || c = '-') = true := by
  refine List.all_eq_true.mpr fun c hc => ?_
  by_contra hnot
  rw [Bool.or_eq_true, not_or] at hnot
  exact h (List.mem_map.mpr ⟨c, hc, if_neg hnot.1⟩)

/-- Only one name of a hop goes on under another spelling. -/
theorem Trusted.hop {tokens : List Name} {e : Name × Text} (h : Trusted r.headers tokens e)
    (hhop : HopName e.1) :
    backendHeaderName e.1.text = "keep-alive".toList ∧ e.1 ≠ header "keep-alive" := by
  obtain ⟨hop, hmem, hsame⟩ := List.mem_map.mp hhop
  have hkept : e.1 ∉ hopByHop := fun hmem => h.kept (List.mem_append_left _ hmem)
  have hodd : ¬ e.1.text.all (fun c => c.isAlphanum || c = '-') = true := by
    intro hplain
    rw [backendHeaderName_of_plain hplain] at hsame
    exact hkept (Name.ext hsame ▸ hmem)
  have hplain := h.plain
  unfold ambiguousName at hplain
  rw [← hsame] at hplain
  simp only [Bool.eq_false_iff.mpr hodd, Bool.not_false, Bool.true_and] at hplain
  refine ⟨?_, fun heq => hkept (heq ▸ by decide)⟩
  rw [← hsame]
  have hdash : '-' ∈ hop.text := by
    by_contra hnot
    exact hodd (plain_of_not_mem (hsame ▸ hnot))
  clear hsame
  revert hop
  decide

/-- What the proxy sets comes after what is trusted. -/
theorem insertAll_own (hkept : ∀ e ∈ h, untrustedRequestHeader e.1.text = false) (who : Identity)
    (app : Text) (route : Route) (peer : Text) :
    insertAll [(header "x-forwarded-host", encode route.authority),
        (header "x-forwarded-proto", encode route.scheme), (header "x-forwarded-for", encode peer)]
      (insertAll (([app].filter (· ≠ [])).map fun value => (header "cookie", value))
        (insertAll (who.headers.map fun e => (e.1, encode e.2)) h)) =
      h ++ ownHeaders who app route peer := by
  obtain ⟨-, hnames, hown⟩ := ownNames_spec app
  have hset : insertAll (ownHeaders who app route peer) h = h ++ ownHeaders who app route peer := by
    refine insertAll_eq (by rwa [map_fst_ownHeaders]) fun e he hmem => ?_
    rw [map_fst_ownHeaders] at hmem
    have htrusted := hkept e he
    rw [(hown _ hmem).1] at htrusted
    cases htrusted
  unfold insertAll at hset ⊢
  rwa [ownHeaders, List.foldl_append, List.foldl_append] at hset

theorem mem_ownNames {who : Identity} {app peer : Text} {e : Name × Text}
    (he : e ∈ ownHeaders who app route peer) : e.1 ∈ ownNames app := by
  rw [← map_fst_ownHeaders who app route peer]
  exact List.mem_map_of_mem he

/-- **What is forwarded**: trusted headers of the client, those of the proxy, and those of a
handshake. -/
theorem forward_ok (hf : forward env r = .ok (route, h, key)) :
    ∃ tokens token who trusted, connectionTokens r.headers = .ok tokens ∧
      cookie r.headers (env.cookieName route) = .ok token ∧ env.session route token = .ok who ∧
      (∀ e ∈ trusted, Trusted r.headers tokens e) ∧
      h = trusted ++ ownHeaders who (appCookies r.headers) route r.peer ++
        if key.isSome then webSocketHeaders else [] := by
  unfold forward at hf
  obtain ⟨hplain, hf⟩ := seq_ok.mp hf
  obtain ⟨host, -, hf⟩ := bind_ok.mp hf
  obtain ⟨host', -, hf⟩ := bind_ok.mp hf
  obtain ⟨route', -, hf⟩ := bind_ok.mp hf
  obtain ⟨-, hf⟩ := seq_ok.mp hf
  obtain ⟨url, -, hf⟩ := bind_ok.mp hf
  obtain ⟨upgrade, -, hf⟩ := bind_ok.mp hf
  obtain ⟨ids, hids, hf⟩ := bind_ok.mp hf
  obtain ⟨cleaned, hclean, hf⟩ := bind_ok.mp hf
  obtain ⟨authority, hauthority, hf⟩ := bind_ok.mp hf
  obtain ⟨scheme, hscheme, hf⟩ := bind_ok.mp hf
  obtain ⟨peer, hpeer, hf⟩ := bind_ok.mp hf
  cases fromStr_ok hauthority
  cases fromStr_ok hscheme
  cases fromStr_ok hpeer
  -- the address of the request is not a cookie
  have hcookies : (r.headers.insert (header "x-original-url") url).getAll (header "cookie") =
      r.headers.getAll (header "cookie") := getAll_insert_ne (by decide) url
  obtain ⟨token, who, htoken, hwho, rfl⟩ := outpostAuth_ok hids
  rw [cookie, hcookies, ← cookie] at htoken
  rw [appCookies, cookies, hcookies, ← cookies, ← appCookies] at hf
  unfold clean at hclean
  obtain ⟨tokens, htokens, hclean⟩ := bind_ok.mp hclean
  cases hclean
  generalize hkept : (r.headers.filter fun e => !(decide (e.1 ∈ hopByHop ++ tokens) ||
    identityHeader e.1.text || decide (e.1 = header "set-cookie") && setsPrivateCookie e.2)).filter
    (fun e => !untrustedRequestHeader e.1.text) = kept at hf
  have hkept : ∀ e ∈ kept, Trusted r.headers tokens e := by
    intro e he
    rw [← hkept] at he
    obtain ⟨he, htrusted⟩ := List.mem_filter.mp he
    obtain ⟨hmem, hclean⟩ := List.mem_filter.mp he
    rw [Bool.not_eq_true', Bool.or_eq_false_iff, Bool.or_eq_false_iff] at hclean
    have hplain := List.any_eq_false.mp (require_ok.mp hplain) e hmem
    exact ⟨hmem, Bool.eq_false_iff.mpr hplain, of_decide_eq_false hclean.1.1, by simpa using htrusted⟩
  have hset := insertAll_own (fun e he => (hkept e he).trusted) who (appCookies r.headers) route'
    r.peer
  have hself : Headers.remove ((header "x-riauth-app-cookie", appCookies r.headers) ::
      who.headers.map fun e => (e.1, encode e.2)) (header "x-riauth-app-cookie") =
      who.headers.map fun e => (e.1, encode e.2) := rfl
  have happ : Headers.getAll ((header "x-riauth-app-cookie", appCookies r.headers) ::
      who.headers.map fun e => (e.1, encode e.2)) (header "x-riauth-app-cookie") =
      [appCookies r.headers] := rfl
  rw [hself, happ, hset] at hf
  have hown : ∀ e ∈ ownHeaders who (appCookies r.headers) route' r.peer,
      ¬ HopName e.1 ∧ e.1 ∉ handshakeNames := fun e he =>
    ((ownNames_spec _).2.2 e.1 (mem_ownNames he)).2
  by_cases hupgrade : upgrade.isSome = true
  · rw [if_pos hupgrade] at hf
    obtain ⟨key', -, hf⟩ := bind_ok.mp hf
    cases hf
    refine ⟨tokens, token, who, kept, htokens, htoken, hwho, hkept, ?_⟩
    refine insertAll_eq (by decide) fun e he hmem => ?_
    have hhop : e.1 ∈ hopByHop :=
      (by decide : ∀ name ∈ webSocketHeaders.map Prod.fst, name ∈ hopByHop) _ hmem
    obtain he | he := List.mem_append.mp he
    · exact (hkept e he).kept (List.mem_append_left _ hhop)
    · exact (hown e he).1 (hopName_of_mem hhop)
  · rw [if_neg hupgrade] at hf
    cases hf
    refine ⟨tokens, token, who, kept.filter fun e => !decide (e.1 ∈ handshakeNames), htokens, htoken,
      hwho, fun e he => hkept e (List.mem_filter.mp he).1, ?_⟩
    have hkeep : (ownHeaders who (appCookies r.headers) route r.peer).filter
        (fun e => !decide (e.1 ∈ handshakeNames)) =
        ownHeaders who (appCookies r.headers) route r.peer :=
      List.filter_eq_self.mpr fun e he => by simpa using (hown e he).2
    rw [List.filter_append, hkeep]
    simp

theorem untrusted_congr {name name' : Text}
    (hname : backendHeaderName name = backendHeaderName name') :
    untrustedRequestHeader name = untrustedRequestHeader name' := by
  unfold untrustedRequestHeader
  rw [hname]

section

variable {who : Identity} {app peer : Text} {trusted : Headers} {e : Name × Text}

theorem webSocketHeaders_spec (he : e ∈ webSocketHeaders) :
    untrustedRequestHeader e.1.text = false ∧ identityHeader e.1.text = false ∧
      e.1 ≠ header "set-cookie" := by
  revert e
  decide

/-- A header that must not come from the client is the only one of its name. -/
theorem own_unique (htrusted : ∀ e ∈ trusted, untrustedRequestHeader e.1.text = false) {ws : Headers}
    (hws : ws ⊆ webSocketHeaders)
    (he : e ∈ trusted ++ ownHeaders who app route peer ++ ws)
    (huntrusted : untrustedRequestHeader e.1.text = true) :
    e ∈ ownHeaders who app route peer ∧
      (trusted ++ ownHeaders who app route peer ++ ws).filter
        (fun e' => backendHeaderName e'.1.text = backendHeaderName e.1.text) = [e] := by
  have hno : ∀ l : Headers, (∀ e' ∈ l, untrustedRequestHeader e'.1.text = false) →
      e ∉ l ∧ l.filter (fun e' => backendHeaderName e'.1.text = backendHeaderName e.1.text) = [] := by
    intro l hl
    refine ⟨fun hmem => ?_, List.filter_eq_nil_iff.mpr fun e' he' heq => ?_⟩
    · rw [hl e hmem] at huntrusted
      cases huntrusted
    · have hfalse := hl e' he'
      rw [untrusted_congr (of_decide_eq_true heq), huntrusted] at hfalse
      cases hfalse
  obtain ⟨hnot, hnone⟩ := hno trusted htrusted
  obtain ⟨hnot', hnone'⟩ := hno ws fun e' he' => (webSocketHeaders_spec (hws he')).1
  have hown : e ∈ ownHeaders who app route peer := by
    obtain he | he := List.mem_append.mp he
    · exact (List.mem_append.mp he).resolve_left hnot
    · exact absurd he hnot'
  refine ⟨hown, ?_⟩
  have hnames := (ownNames_spec app).1
  rw [← map_fst_ownHeaders who app route peer, List.map_map] at hnames
  rw [List.filter_append, List.filter_append, hnone, hnone', List.nil_append, List.append_nil]
  exact List.filter_eq_singleton hnames hown

theorem untrusted_cookie : untrustedRequestHeader (header "cookie").text = true := by decide

/-- The application reads the cookies that are for it. -/
theorem cookies_forwarded (htrusted : ∀ e ∈ trusted, untrustedRequestHeader e.1.text = false)
    {ws : Headers} (hws : ws ⊆ webSocketHeaders) :
    cookies (trusted ++ ownHeaders who (appCookies h) route peer ++ ws) =
      (cookies h).filter fun c => !privateCookie c.1 := by
  have hno : ∀ l : Headers, (∀ e ∈ l, untrustedRequestHeader e.1.text = false) →
      l.filter (fun e => e.1 = header "cookie") = [] := by
    refine fun l hl => List.filter_eq_nil_iff.mpr fun e he heq => ?_
    have hfalse := hl e he
    rw [of_decide_eq_true heq, untrusted_cookie] at hfalse
    cases hfalse
  have hjoin : cookiePairs (appCookies h) = (cookies h).filter fun c => !privateCookie c.1 :=
    cookiePairs_join fun c hc => (readable_of_mem_cookies (List.mem_filter.mp hc).1).1
  have hvalues : Headers.getAll (trusted ++ ownHeaders who (appCookies h) route peer ++ ws)
      (header "cookie") = [appCookies h].filter (· ≠ []) := by
    unfold Headers.getAll
    rw [List.filter_append, List.filter_append, hno trusted htrusted,
      hno ws fun e he => (webSocketHeaders_spec (hws he)).1, List.nil_append, List.append_nil]
    unfold ownHeaders
    by_cases happ : appCookies h = []
    · rw [happ]
      rfl
    · rw [List.filter_cons_of_pos (by simp [happ])]
      rfl
  have hread : toStr (appCookies h) = some (appCookies h) := if_pos (appCookies_visible h)
  rw [cookies, hvalues, ← hjoin]
  by_cases happ : appCookies h = []
  · rw [happ]
    rfl
  · rw [List.filter_cons_of_pos (by simp [happ]), List.filter_nil, List.filterMap_cons, hread]
    exact List.flatMap_singleton ..

end

/-! ## What the client sees -/

theorem mem_insertAll {own : Headers} {e : Name × Text} (he : e ∈ insertAll own h) :
    e ∈ h ∨ e ∈ own := by
  induction own generalizing h with
  | nil => exact .inl he
  | cons o own ih =>
    obtain he | he := ih he
    · obtain he | he := List.mem_append.mp he
      · exact .inl (List.mem_filter.mp he).1
      · exact .inr (List.mem_singleton.mp he ▸ List.mem_cons_self)
    · exact .inr (List.mem_cons_of_mem _ he)

/-- A header that a reply may have. -/
def Harmless (e : Name × Text) : Prop :=
  identityHeader e.1.text = false ∧ (e.1 = header "set-cookie" → setsPrivateCookie e.2 = false)

theorem clean_harmless {out : Headers} (hc : clean h = .ok out) : ∀ e ∈ out, Harmless e := by
  unfold clean at hc
  obtain ⟨tokens, -, hc⟩ := bind_ok.mp hc
  cases hc
  intro e he
  have hkeep := (List.mem_filter.mp he).2
  rw [Bool.not_eq_true', Bool.or_eq_false_iff, Bool.or_eq_false_iff] at hkeep
  refine ⟨hkeep.1.2, fun hname => ?_⟩
  simpa [hname] using hkeep.2

theorem identityHeader_location : identityHeader (header "location").text = false := by decide

theorem reply_harmless {offered : Text} {status : ℕ} {out : Headers}
    (hr : reply env route key offered status h = .ok out) : ∀ e ∈ out, Harmless e := by
  unfold reply at hr
  obtain ⟨cleaned, hclean, hr⟩ := bind_ok.mp hr
  obtain ⟨location, -, hr⟩ := bind_ok.mp hr
  obtain ⟨moved, hmoved, hr⟩ := bind_ok.mp hr
  have hmoved : ∀ e ∈ moved, Harmless e := by
    have hclean := clean_harmless hclean
    cases hl : location.bind (env.relocate route) with
    | none =>
      rw [hl] at hmoved
      cases hmoved
      exact hclean
    | some target =>
      rw [hl] at hmoved
      obtain ⟨value, -, hmoved⟩ := bind_ok.mp hmoved
      cases hmoved
      intro e he
      obtain he | he := List.mem_append.mp he
      · exact hclean e (List.mem_filter.mp he).1
      · rw [List.mem_singleton.mp he]
        exact ⟨identityHeader_location, fun h =>
          absurd h (by decide : header "location" ≠ header "set-cookie")⟩
  cases key with
  | none =>
    obtain ⟨-, hr⟩ := seq_ok.mp hr
    cases hr
    exact hmoved
  | some key =>
    obtain ⟨-, hr⟩ := seq_ok.mp hr
    cases hr
    intro e he
    obtain he | he := mem_insertAll he
    · exact hmoved e he
    · obtain ⟨-, hid, hset⟩ := webSocketHeaders_spec he
      exact ⟨hid, fun h => absurd h hset⟩

/-- **Identity cannot be forged, and cookies of the proxy do not leave it.** A header that must not
come from the client is the only one of its name and is set by the proxy, for the user of the
session that its cookie names; the cookies that the application reads are those of the client that
are not of the proxy; a header that is named as one of the connection, or that an application takes
for one of a hop, does not go on unless the proxy sets it, but for other spellings of `keep-alive`;
and no reply has a header of identity, or sets a cookie of the proxy with a value that can be
read. -/
theorem proxy_headers (hf : forward env r = .ok (route, h, key)) :
    (∃ token who, cookie r.headers (env.cookieName route) = .ok token ∧
      env.session route token = .ok who ∧
      (∀ e ∈ h, untrustedRequestHeader e.1.text = true →
        e ∈ ownHeaders who (appCookies r.headers) route r.peer ∧
          h.filter (fun e' => backendHeaderName e'.1.text = backendHeaderName e.1.text) = [e]) ∧
      ∃ tokens, connectionTokens r.headers = .ok tokens ∧
        (∀ e ∈ h, e.1 ∈ tokens → e ∈ ownHeaders who (appCookies r.headers) route r.peer ∨
          key.isSome ∧ e ∈ webSocketHeaders)) ∧
    (∀ value ∈ r.headers.getAll (header "cookie"), toStr value = some value) ∧
    cookies h = (cookies r.headers).filter (fun c => !privateCookie c.1) ∧
    (∀ e ∈ h, HopName e.1 → key.isSome ∧ e ∈ webSocketHeaders ∨
      backendHeaderName e.1.text = "keep-alive".toList ∧ e.1 ≠ header "keep-alive") ∧
    ∀ offered status upstream out, reply env route key offered status upstream = .ok out →
      ∀ e ∈ out, identityHeader e.1.text = false ∧ (e.1 = header "set-cookie" →
        ∀ value, toStr e.2 = some value → ∀ c, splitOnce '=' value = some c →
          privateCookie (trim c.1) = false) := by
  obtain ⟨tokens, token, who, trusted, htokens, htoken, hwho, htrusted, rfl⟩ := forward_ok hf
  have hws : (if key.isSome then webSocketHeaders else []) ⊆ webSocketHeaders := by
    split_ifs
    · exact List.Subset.refl _
    · exact List.nil_subset _
  have huntrusted : ∀ e ∈ trusted, untrustedRequestHeader e.1.text = false :=
    fun e he => (htrusted e he).trusted
  -- what stands among the headers of a handshake is there for a handshake
  have hhandshake : ∀ e ∈ (if key.isSome then webSocketHeaders else []),
      key.isSome ∧ e ∈ webSocketHeaders := by
    intro e he
    split_ifs at he with hkey
    · exact ⟨hkey, he⟩
    · cases he
  refine ⟨⟨token, who, htoken, hwho, fun e he hu => own_unique huntrusted hws he hu, tokens, htokens,
    fun e he hmem => ?_⟩, ?_, cookies_forwarded huntrusted hws, fun e he hhop => ?_, ?_⟩
  · obtain he | he := List.mem_append.mp he
    · obtain he | he := List.mem_append.mp he
      · exact absurd (List.mem_append_right _ hmem) (htrusted e he).kept
      · exact .inl he
    · exact .inr (hhandshake e he)
  · exact cookie_ok htoken
  · obtain he | he := List.mem_append.mp he
    · obtain he | he := List.mem_append.mp he
      · exact .inr ((htrusted e he).hop hhop)
      · exact absurd hhop ((ownNames_spec _).2.2 e.1 (mem_ownNames he)).2.1
    · exact .inl (hhandshake e he)
  · intro offered status upstream out hr e he
    obtain ⟨hid, hset⟩ := reply_harmless hr e he
    refine ⟨hid, fun hname value hvalue c hc => ?_⟩
    have hset := hset hname
    rw [setsPrivateCookie, hvalue, Option.bind_some, hc, Option.any_some] at hset
    exact hset

end

section

/-- A proxy of one application with one session. -/
def oneSession : Env where
  routes host := if host = "app".toList then
    some ⟨"https://app".toList, "app".toList, "https".toList⟩ else none
  guard _ _ := .ok ()
  cookieName _ := "riauth_proxy".toList
  session _ token := if token = some "s".toList then
    .ok ⟨"ada".toList, "1".toList, "Ada".toList, "a@b".toList, ["g".toList]⟩ else .error .unauthorized
  validKey _ := true
  acceptKey key := key
  relocate _ _ := none

/-- A request with a forged name, a cookie of the proxy, two connection tokens and a header of a hop
in another spelling. -/
def forging : Request where
  method := "GET".toList
  pathQuery := "/".toList
  peer := "10.0.0.1".toList
  headers := [("host", "app"), ("x-auth-user", "root"), ("cookie", "riauth_proxy=s; a=1"),
    ("connection", "x-forwarded-for, x_note"), ("x_note", "1"), ("x-note", "2"),
    ("keep_alive", "3")].map fun e => (header e.1, e.2.toList)

/-- What the application sees of it. -/
def forgingOut : Headers :=
  [("x-note", "2"), ("keep_alive", "3"), ("x-authentik-username", "ada"), ("x-authentik-uid", "1"),
    ("x-authentik-name", "Ada"), ("x-authentik-email", "a@b"), ("x-authentik-groups", "g"),
    ("x-auth-user", "ada"), ("x-auth-sub", "1"), ("cookie", "a=1"), ("x-forwarded-host", "app"),
    ("x-forwarded-proto", "https"), ("x-forwarded-for", "10.0.0.1")].map
      fun e => (header e.1, e.2.toList)

/-- Where the sample application is. -/
def appRoute : Route := ⟨"https://app".toList, "app".toList, "https".toList⟩

theorem forward_forging : forward oneSession forging = .ok (appRoute, forgingOut, none) := by
  rfl

theorem proxy_headers_forging :
    cookies forgingOut = [("a".toList, "1".toList)] ∧
      forgingOut.filter (fun e => backendHeaderName e.1.text = "x-auth-user".toList) =
        [(header "x-auth-user", "ada".toList)] := by
  refine ⟨?_, ?_⟩
  · rw [(proxy_headers forward_forging).2.2.1]
    rfl
  · obtain ⟨⟨_, _, _, _, hown, _⟩, _⟩ := proxy_headers forward_forging
    exact (hown (header "x-auth-user", "ada".toList) (by decide) (by decide)).2

/-- A header that a connection token names is sent when the proxy sets it, and so is one with
another spelling of the name, or of `keep-alive`; a reply may set a cookie of the proxy under
another spelling of `set-cookie`, and with a byte that is not ASCII. -/
theorem proxy_lets_through :
    forward oneSession forging = .ok (appRoute, forgingOut, none) ∧
      (∃ e ∈ forgingOut, connectionTokens forging.headers =
        .ok [header "x-forwarded-for", header "x_note"] ∧ e.1 = header "x-forwarded-for") ∧
      (∃ e ∈ forgingOut, backendHeaderName e.1.text = backendHeaderName (header "x_note").text) ∧
      (∃ e ∈ forgingOut, backendHeaderName e.1.text = "keep-alive".toList) ∧
      (∃ name, backendHeaderName (header name).text = "set-cookie".toList ∧
        reply oneSession appRoute none [] 200 [(header name, "riauth_proxy=1".toList)] =
          .ok [(header name, "riauth_proxy=1".toList)]) ∧
      ∃ value, splitOnce '=' value = some ("riauth_proxy".toList, [Char.ofNat 200]) ∧
        reply oneSession appRoute none [] 200 [(header "set-cookie", value)] =
          .ok [(header "set-cookie", value)] :=
  ⟨forward_forging, ⟨(header "x-forwarded-for", "10.0.0.1".toList), by decide, rfl, rfl⟩,
    ⟨(header "x-note", "2".toList), by decide, rfl⟩,
    ⟨(header "keep_alive", "3".toList), by decide, rfl⟩, ⟨"set_cookie", rfl, rfl⟩,
    "riauth_proxy=".toList ++ [Char.ofNat 200], rfl, rfl⟩

end

end RiAuth.Proxy
