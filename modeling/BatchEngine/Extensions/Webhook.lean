import BatchEngine.Lib.Url

/-!
# The completion webhook

The host name of the URL is looked up once to check its addresses. Each of up to three POSTs
then looks up the host name that the client takes from the URL, and connects to addresses of
that answer.
-/

set_option autoImplicit false

namespace BatchEngine.Extensions

open Py

/-- What a lookup raises. -/
inductive LookupError where
  | gaierror (text : String)
  | other
  deriving DecidableEq

/-- `WebhookSSRFError`, with what its text tells. -/
inductive WebhookSSRFError where
  | unsupportedScheme (scheme : List Char)
  | noHostname
  | unresolved (exc : String)
  | disallowed (ip : IPAddress)
  deriving DecidableEq

inductive DeliveryError where
  | ssrf (exc : WebhookSSRFError)
  | valueError
  | other
  deriving DecidableEq

/-- How a POST ends: with a response, an `httpx.HTTPError`, or another exception. The delivery
being cancelled in the POST, or in the pause behind it, is one of the last kind. -/
inductive Reply where
  | status (code : ℤ)
  | httpError
  | raises
  deriving DecidableEq

/-- `socket.getaddrinfo` over time. Lookup 0 is the one of the check, lookup `n` the one of the
`n`th POST. -/
abbrev Resolver := ℕ → List Char → Except LookupError (List String)

/-- The HTTP client, with the receivers behind it. -/
structure Client where
  /-- The host name that the client takes from a URL, if it takes the URL at all. -/
  host : String → Option (List Char)
  /-- The addresses, out of those of the lookup, that the `n`th POST connects to. -/
  connects : ℕ → List String → List String
  connects_subset : ∀ n infos, connects n infos ⊆ infos
  reply : ℕ → Reply

def maxAttempts : ℕ := 3

def isDisallowed (ip : IPAddress) : Bool :=
  ip.isPrivate || ip.isLoopback || ip.isLinkLocal || ip.isReserved || ip.isMulticast

def checkAddresses : List String → Except DeliveryError Unit
  | [] => .ok ()
  | sockaddr :: infos =>
    match ipAddress sockaddr.toList with
    | none => .error .valueError
    | some ip => if isDisallowed ip then .error (.ssrf (.disallowed ip)) else checkAddresses infos

def validateWebhookUrl (u : UnicodeData) (getaddrinfo : Resolver) (url : String)
    (allowPrivate : Bool) : Except DeliveryError Unit :=
  match urlparse u url with
  | none => .error .valueError
  | some parsed =>
    if parsed.scheme ∉ ["http".toList, "https".toList] then
      .error (.ssrf (.unsupportedScheme parsed.scheme))
    else
      match parsed.hostname u with
      | none | some [] => .error (.ssrf .noHostname)
      | some hostname =>
        if allowPrivate then .ok ()
        else
          match getaddrinfo 0 hostname with
          | .error (.gaierror exc) => .error (.ssrf (.unresolved exc))
          | .error .other => .error .other
          | .ok infos => checkAddresses infos

/-- The addresses that the POST connects to, and how it ends. A URL that the client does not
take is an `httpx.InvalidURL`, a host name that it cannot look up an `httpx.ConnectError`. -/
def Client.post (client : Client) (getaddrinfo : Resolver) (url : String) (attempt : ℕ) :
    List String × Reply :=
  match client.host url with
  | none => ([], .raises)
  | some hostname =>
    match getaddrinfo attempt hostname with
    | .error (.gaierror _) => ([], .httpError)
    | .error .other => ([], .raises)
    | .ok infos => (client.connects attempt infos, client.reply attempt)

/-- A delivery: the addresses connected to, and what is returned. -/
structure Delivery where
  connections : List String
  result : Except DeliveryError Bool

def Delivery.after (delivery : Delivery) (opened : List String) : Delivery :=
  { delivery with connections := opened ++ delivery.connections }

/-- The loop with `left` attempts left. -/
def postAttempts (post : ℕ → List String × Reply) : ℕ → ℕ → Delivery
  | 0, _ => ⟨[], .ok false⟩
  | left + 1, attempt =>
    let (opened, reply) := post attempt
    match reply with
    | .status code =>
      if code < 300 then ⟨opened, .ok true⟩
      else (postAttempts post left (attempt + 1)).after opened
    | .httpError => (postAttempts post left (attempt + 1)).after opened
    | .raises => ⟨opened, .error .other⟩

def deliverWebhook (u : UnicodeData) (getaddrinfo : Resolver) (client : Client) (url : String)
    (allowPrivate : Bool) : Delivery :=
  match validateWebhookUrl u getaddrinfo url allowPrivate with
  | .error exc => ⟨[], .error exc⟩
  | .ok () => postAttempts (client.post getaddrinfo url) maxAttempts 1

/-! ## The check -/

def Permitted (sockaddr : String) : Prop :=
  ∃ ip, ipAddress sockaddr.toList = some ip ∧ isDisallowed ip = false

/-- The addresses of the lookup that the check makes. -/
def checkedAddresses (u : UnicodeData) (getaddrinfo : Resolver) (url : String) : List String :=
  match (urlparse u url).bind (·.hostname u) with
  | none => []
  | some hostname =>
    match getaddrinfo 0 hostname with
    | .error _ => []
    | .ok infos => infos

theorem checkAddresses_ok_iff (infos : List String) :
    checkAddresses infos = .ok () ↔ ∀ addr ∈ infos, Permitted addr := by
  induction infos with
  | nil => simp [checkAddresses]
  | cons addr infos ih =>
    rw [checkAddresses, List.forall_mem_cons, ← ih, Permitted]
    cases haddr : ipAddress addr.toList with
    | none => simp
    | some ip => cases hip : isDisallowed ip <;> simp [hip]

/-- A URL that passes the check has permitted addresses only in its lookup. -/
theorem permitted_of_checked {u : UnicodeData} {getaddrinfo : Resolver} {url addr : String}
    (hvalid : validateWebhookUrl u getaddrinfo url false = .ok ())
    (haddr : addr ∈ checkedAddresses u getaddrinfo url) : Permitted addr := by
  unfold validateWebhookUrl at hvalid
  split at hvalid
  · cases hvalid
  · rename_i parsed hparsed
    split at hvalid
    · cases hvalid
    · split at hvalid
      · cases hvalid
      · cases hvalid
      · rename_i hostname _ hhost
        simp only [Bool.false_eq_true, ↓reduceIte] at hvalid
        split at hvalid
        · cases hvalid
        · cases hvalid
        · rename_i infos hinfos
          rw [checkedAddresses, hparsed, Option.bind_some, hhost] at haddr
          simp only [hinfos] at haddr
          exact (checkAddresses_ok_iff infos).mp hvalid addr haddr

/-! ## The attempts -/

/-- The attempt ends so that another one follows. -/
def Reply.fails : Reply → Bool
  | .status code => 300 ≤ code
  | .httpError => true
  | .raises => false

theorem postAttempts_connections (post : ℕ → List String × Reply) (left attempt : ℕ) :
    (postAttempts post (left + 1) attempt).connections =
      (post attempt).1 ++
        if (post attempt).2.fails then (postAttempts post left (attempt + 1)).connections
        else [] := by
  rw [postAttempts]
  rcases post attempt with ⟨opened, reply⟩
  cases reply with
  | status code =>
    by_cases hcode : code < 300
    · simp [Reply.fails, hcode]
    · simp [Reply.fails, hcode, Int.not_lt.mp hcode, Delivery.after]
  | httpError => rfl
  | raises => exact (List.append_nil opened).symm

/-- An attempt is made exactly if all before it failed. -/
theorem mem_postAttempts_iff {post : ℕ → List String × Reply} {addr : String}
    (left attempt : ℕ) : addr ∈ (postAttempts post left attempt).connections ↔
      ∃ n, attempt ≤ n ∧ n < attempt + left ∧
        (∀ m, attempt ≤ m → m < n → (post m).2.fails = true) ∧ addr ∈ (post n).1 := by
  induction left generalizing attempt with
  | zero =>
    constructor
    · intro h
      exact absurd h List.not_mem_nil
    · rintro ⟨n, hfrom, hto, -⟩
      omega
  | succ left ih =>
    rw [postAttempts_connections, List.mem_append]
    constructor
    · rintro (hfirst | hlater)
      · exact ⟨attempt, le_rfl, by omega, fun m hfrom hto => by omega, hfirst⟩
      · split at hlater
        · rename_i hfails
          obtain ⟨n, hfrom, hto, hall, hmem⟩ := (ih (attempt + 1)).mp hlater
          refine ⟨n, by omega, by omega, fun m hm hlt => ?_, hmem⟩
          rcases Nat.eq_or_lt_of_le hm with rfl | hm
          · exact hfails
          · exact hall m hm hlt
        · exact absurd hlater List.not_mem_nil
    · rintro ⟨n, hfrom, hto, hall, hmem⟩
      rcases Nat.eq_or_lt_of_le hfrom with rfl | hfrom
      · exact Or.inl hmem
      · refine Or.inr ?_
        rw [if_pos (hall attempt le_rfl hfrom)]
        exact (ih (attempt + 1)).mpr
          ⟨n, hfrom, by omega, fun m hm hlt => hall m (by omega) hlt, hmem⟩

theorem mem_connections_iff {u : UnicodeData} {getaddrinfo : Resolver} {client : Client}
    {url addr : String} : addr ∈ (deliverWebhook u getaddrinfo client url false).connections ↔
      validateWebhookUrl u getaddrinfo url false = .ok () ∧
        ∃ n, 1 ≤ n ∧ n < 1 + maxAttempts ∧
          (∀ m, 1 ≤ m → m < n → (client.post getaddrinfo url m).2.fails = true) ∧
            addr ∈ (client.post getaddrinfo url n).1 := by
  rw [deliverWebhook]
  cases hvalid : validateWebhookUrl u getaddrinfo url false with
  | error exc => simp
  | ok _ => simp only [mem_postAttempts_iff, true_and]

/-! ## Deliveries -/

/-- A lookup of a POST, with its answer. No POST comes after a lookup that raised anything but a
`gaierror`. -/
structure Resolver.Answers (getaddrinfo : Resolver) (hostname : List Char) (n : ℕ)
    (infos : List String) : Prop where
  pos : 1 ≤ n
  lt : n < 1 + maxAttempts
  quiet : ∀ m, 1 ≤ m → m < n → getaddrinfo m hostname ≠ .error .other
  answer : getaddrinfo n hostname = .ok infos

/-- What the POSTs of a URL are answered beyond the addresses of the check is permitted too. -/
def Resolver.AddsPermitted (getaddrinfo : Resolver) (u : UnicodeData)
    (host : String → Option (List Char)) (url : String) : Prop :=
  ∀ hostname, host url = some hostname → ∀ n infos, getaddrinfo.Answers hostname n infos →
    ∀ addr ∈ infos, addr ∉ checkedAddresses u getaddrinfo url → Permitted addr

theorem Client.mem_post_iff {client : Client} {getaddrinfo : Resolver} {url addr : String}
    {n : ℕ} : addr ∈ (client.post getaddrinfo url n).1 ↔
      ∃ hostname infos, client.host url = some hostname ∧
        getaddrinfo n hostname = .ok infos ∧ addr ∈ client.connects n infos := by
  rw [Client.post]
  cases hhost : client.host url with
  | none => simp
  | some hostname =>
    cases hlookup : getaddrinfo n hostname with
    | error exc => cases exc <;> simp [hlookup]
    | ok infos => simp [hlookup]

theorem Client.quiet_of_fails {client : Client} {getaddrinfo : Resolver} {url : String}
    {hostname : List Char} {n : ℕ} (hhost : client.host url = some hostname)
    (hfails : (client.post getaddrinfo url n).2.fails = true) :
    getaddrinfo n hostname ≠ .error .other := by
  intro hother
  simp [Client.post, hhost, hother, Reply.fails] at hfails

/-- Every connection goes to an address of some answer. -/
theorem answered_of_connected {u : UnicodeData} {getaddrinfo : Resolver} {client : Client}
    {url addr : String}
    (haddr : addr ∈ (deliverWebhook u getaddrinfo client url false).connections) :
    validateWebhookUrl u getaddrinfo url false = .ok () ∧
      ∃ hostname n infos, client.host url = some hostname ∧
        getaddrinfo.Answers hostname n infos ∧ addr ∈ infos := by
  obtain ⟨hvalid, n, hpos, hlt, hfailed, hmem⟩ := mem_connections_iff.mp haddr
  obtain ⟨hostname, infos, hhost, hinfos, hmem⟩ := Client.mem_post_iff.mp hmem
  have hquiet : ∀ m, 1 ≤ m → m < n → getaddrinfo m hostname ≠ .error .other :=
    fun m hm hmn => Client.quiet_of_fails hhost (hfailed m hm hmn)
  exact ⟨hvalid, hostname, n, infos, hhost, ⟨hpos, hlt, hquiet, hinfos⟩,
    client.connects_subset n infos hmem⟩

theorem permitted_of_addsPermitted {u : UnicodeData} {getaddrinfo : Resolver} {client : Client}
    {url : String} (hadds : validateWebhookUrl u getaddrinfo url false = .ok () →
      getaddrinfo.AddsPermitted u client.host url) :
    ∀ addr ∈ (deliverWebhook u getaddrinfo client url false).connections, Permitted addr := by
  intro addr haddr
  obtain ⟨hvalid, hostname, n, infos, hhost, hanswers, hmem⟩ := answered_of_connected haddr
  by_cases hchecked : addr ∈ checkedAddresses u getaddrinfo url
  · exact permitted_of_checked hvalid hchecked
  · exact hadds hvalid hostname hhost n infos hanswers addr hmem hchecked

/-- A client that tries every address of an answer, and reaches no receiver at any. -/
def tryingAll (host : String → Option (List Char)) : Client where
  host := host
  connects _ infos := infos
  connects_subset _ infos := List.Subset.refl infos
  reply _ := .httpError

theorem tryingAll_connected {u : UnicodeData} {getaddrinfo : Resolver}
    {host : String → Option (List Char)} {url addr : String} {hostname : List Char} {n : ℕ}
    {infos : List String} (hvalid : validateWebhookUrl u getaddrinfo url false = .ok ())
    (hhost : host url = some hostname) (hanswers : getaddrinfo.Answers hostname n infos)
    (haddr : addr ∈ infos) :
    addr ∈ (deliverWebhook u getaddrinfo (tryingAll host) url false).connections := by
  have hfails : ∀ m, 1 ≤ m → m < n →
      ((tryingAll host).post getaddrinfo url m).2.fails = true := by
    intro m hm hmn
    have hquiet := hanswers.quiet m hm hmn
    have hhost' : (tryingAll host).host url = some hostname := hhost
    rw [Client.post, hhost']
    cases hlookup : getaddrinfo m hostname with
    | error exc =>
      cases exc with
      | gaierror text => simp [hlookup, Reply.fails]
      | other => exact absurd hlookup hquiet
    | ok infos => simp [hlookup, tryingAll, Reply.fails]
  exact mem_connections_iff.mpr ⟨hvalid, n, hanswers.pos, hanswers.lt, hfails,
    Client.mem_post_iff.mpr ⟨hostname, infos, hhost, hanswers.answer, haddr⟩⟩

/-- Over all clients that take this host name from the URL, every connection goes to a permitted
address exactly if the resolver answers no POST of a URL that passed the check with a
disallowed address that the check was not answered with. -/
theorem reaches_permitted_iff (u : UnicodeData) (getaddrinfo : Resolver)
    (host : String → Option (List Char)) (url : String) :
    (∀ client : Client, client.host = host →
      ∀ addr ∈ (deliverWebhook u getaddrinfo client url false).connections, Permitted addr) ↔
      (validateWebhookUrl u getaddrinfo url false = .ok () →
        getaddrinfo.AddsPermitted u host url) := by
  constructor
  · intro h hvalid hostname hhost n infos hanswers addr haddr _
    exact h (tryingAll host) rfl addr (tryingAll_connected hvalid hhost hanswers haddr)
  · rintro h client rfl
    exact permitted_of_addsPermitted h

/-- The client connects to the host that the check looked up. -/
def Client.SameHost (client : Client) (u : UnicodeData) (url : String) : Prop :=
  ∀ hostname, client.host url = some hostname →
    (urlparse u url).bind (·.hostname u) = some hostname

/-- With a resolver that adds no address to its first answer, what is checked is what is
connected to. -/
theorem permitted_of_steady {u : UnicodeData} {getaddrinfo : Resolver} {client : Client}
    {url : String} (hsame : client.SameHost u url)
    (hsteady : ∀ hostname n infos, getaddrinfo n hostname = .ok infos →
      ∃ checked, getaddrinfo 0 hostname = .ok checked ∧ infos ⊆ checked) :
    ∀ addr ∈ (deliverWebhook u getaddrinfo client url false).connections, Permitted addr := by
  refine permitted_of_addsPermitted fun _ hostname hhost n infos hanswers addr haddr hnew => ?_
  obtain ⟨checked, hchecked, hsubset⟩ := hsteady hostname n infos hanswers.answer
  have hlookup : checkedAddresses u getaddrinfo url = checked := by
    rw [checkedAddresses, hsame hostname hhost]
    simp only [hchecked]
  rw [hlookup] at hnew
  exact absurd (hsubset haddr) hnew

/-- A resolver that answers with a public address first, then with a metadata service. -/
def rebinding : Resolver :=
  fun n _ => .ok (if n = 0 then ["93.184.216.34"] else ["169.254.169.254"])

/-- A client that takes `example.com` from its URL and is answered at once. -/
def exampleClient : Client where
  host _ := some "example.com".toList
  connects _ infos := infos
  connects_subset _ infos := List.Subset.refl infos
  reply _ := .status 200

def asciiData : UnicodeData where
  nfkc := id
  lower := List.map Char.toLower

theorem rebinding_metadata :
    (deliverWebhook asciiData rebinding exampleClient
          "https://example.com/hook" false).connections = ["169.254.169.254"] ∧
      ¬Permitted "169.254.169.254" := by
  constructor
  · decide +kernel
  · rintro ⟨ip, hip, hpermitted⟩
    have hall : (ipAddress "169.254.169.254".toList).all isDisallowed = true := by
      decide +kernel
    have hdisallowed : isDisallowed ip = true := (Option.all_eq_true _ _).mp hall ip hip
    exact absurd (hpermitted.symm.trans hdisallowed) Bool.false_ne_true

end BatchEngine.Extensions
