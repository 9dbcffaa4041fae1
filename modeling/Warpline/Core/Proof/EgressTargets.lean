import Warpline.Core.Egress

/-!
# What outbound HTTP reaches, and what it returns

`HttpCrates.Documented` is what is relied on of the crates: a client connects to the IP literal of
the URL, or to what its resolver answered for the URL's domain. `readBody_eq_ok` says which streams
of chunks are read to the end, `GuardedResolver.resolve_eq_ok` which addresses a name resolves to,
and `httpFetch_cases` what a fetch that is not refused has passed. `http_out_confined` puts them
together.
-/

set_option autoImplicit false

namespace Warpline

/-- A URL has a host string when it has a host. No redirects, and no proxy. -/
structure HttpCrates.Documented (H : HttpCrates) : Prop where
  hostStr : ∀ url, (H.hostStr url).isSome = (H.host url).isSome
  connects : ∀ (resolve : Str → Resolving) (method : H.Method) (url : H.Url) (body : List UInt8),
    ∀ ip ∈ (H.send resolve method url body).connects,
      literalIp H url = some ip ∨
        ∃ name addrs, H.host url = some (.domain name) ∧ resolve name = .ok addrs ∧
          ip ∈ addrs.map SocketAddr.ip

/-! ## The body -/

/-- The loop ends well on the streams without an error whose total is within the cap. -/
theorem readBody_eq_ok {chunks : List (Except String (List UInt8))} {body out : List UInt8}
    (hbody : body.length ≤ MAX_HTTP_BODY_BYTES) :
    readBody chunks body = .ok out ↔
      ∃ parts : List (List UInt8), chunks = parts.map .ok ∧ out = body ++ parts.flatten ∧
        out.length ≤ MAX_HTTP_BODY_BYTES := by
  induction chunks generalizing body with
  | nil =>
    constructor
    · intro h
      obtain rfl : body = out := Except.ok.inj h
      exact ⟨[], rfl, by simp, hbody⟩
    · rintro ⟨parts, hparts, hout, -⟩
      obtain rfl : parts = [] := List.map_eq_nil_iff.1 hparts.symm
      rw [hout]
      simp [readBody, pure, Except.pure]
  | cons chunk chunks ih =>
    cases chunk with
    | error e =>
      constructor
      · intro h
        cases h
      · rintro ⟨parts, hparts, -, -⟩
        cases parts with
        | nil => cases hparts
        | cons part parts => cases hparts
    | ok chunk =>
      simp only [readBody]
      split
      · rename_i hlong
        constructor
        · intro h
          cases h
        · rintro ⟨parts, hparts, hout, hlen⟩
          cases parts with
          | nil => cases hparts
          | cons part parts =>
            obtain ⟨hpart, -⟩ := List.cons.inj hparts
            obtain rfl : chunk = part := Except.ok.inj hpart
            rw [hout] at hlen
            simp only [List.flatten_cons, List.length_append] at hlen
            omega
      · rename_i hfits
        rw [ih (by simp only [List.length_append]; omega)]
        constructor
        · rintro ⟨parts, rfl, hout, hlen⟩
          exact ⟨chunk :: parts, rfl, by simpa using hout, hlen⟩
        · rintro ⟨parts, hparts, hout, hlen⟩
          cases parts with
          | nil => cases hparts
          | cons part parts =>
            obtain ⟨hpart, hrest⟩ := List.cons.inj hparts
            obtain rfl : chunk = part := Except.ok.inj hpart
            exact ⟨parts, hrest, by simpa using hout, hlen⟩

/-! ## The resolver -/

theorem GuardedResolver.resolve_private (lookupHost : Str → Resolving) (host : Str) :
    GuardedResolver.resolve true lookupHost host = lookupHost host := by
  cases h : lookupHost host <;> simp [GuardedResolver.resolve, h, bind, Except.bind, pure,
    Except.pure]

/-- The unblocked answers, in order, if there are any. -/
theorem GuardedResolver.resolve_eq_ok {lookupHost : Str → Resolving} {host : Str}
    {found : List SocketAddr} :
    GuardedResolver.resolve false lookupHost host = .ok found ↔
      ∃ addrs, lookupHost host = .ok addrs ∧
        found = addrs.filter (fun a => !isBlockedIp a.ip) ∧ found ≠ [] := by
  cases h : lookupHost host with
  | error e => simp [GuardedResolver.resolve, h, bind, Except.bind]
  | ok addrs =>
    simp only [GuardedResolver.resolve, h, bind, Except.bind, Bool.false_eq_true, if_false,
      pure, Except.pure, Except.ok.injEq, exists_eq_left']
    split
    · rename_i hnone
      rw [hnone]
      constructor
      · intro hfound
        cases hfound
      · rintro ⟨rfl, hne⟩
        exact absurd rfl hne
    · rename_i hsome
      constructor
      · intro hfound
        obtain rfl := Except.ok.inj hfound
        exact ⟨rfl, hsome⟩
      · rintro ⟨rfl, -⟩
        rfl

theorem GuardedResolver.resolve_unblocked {lookupHost : Str → Resolving} {host : Str}
    {found : List SocketAddr} (h : GuardedResolver.resolve false lookupHost host = .ok found)
    {ip : IpAddr} (hip : ip ∈ found.map SocketAddr.ip) : isBlockedIp ip = false := by
  obtain ⟨addrs, -, rfl, -⟩ := GuardedResolver.resolve_eq_ok.1 h
  obtain ⟨addr, haddr, rfl⟩ := List.mem_map.1 hip
  simpa using (List.mem_filter.1 haddr).2

/-! ## The fetch -/

section
variable {H : HttpCrates} {allowedHosts : List Str} {allowPrivate : Bool}
  {resolve : Str → Resolving} {req : HttpOut.Request}

/-- What a target has passed before anything is sent to it. -/
structure AcceptedTarget (H : HttpCrates) (allowedHosts : List Str) (allowPrivate : Bool)
    (req : HttpOut.Request) (url : H.Url) : Prop where
  parsed : H.parse req.url = .ok url
  scheme : H.scheme url = "http".toList ∨ H.scheme url = "https".toList
  allowed : hostAllowed H allowedHosts url = true
  literal : allowPrivate = false → ∀ ip, literalIp H url = some ip → isBlockedIp ip = false

/-- A fetch is refused, or its target is accepted. -/
theorem httpFetch_cases (H : HttpCrates) (allowedHosts : List Str) (allowPrivate : Bool)
    (resolve : Str → Resolving) (req : HttpOut.Request) :
    (∃ e, httpFetch H allowedHosts allowPrivate resolve req = refused e) ∨
      ∃ url, AcceptedTarget H allowedHosts allowPrivate req url ∧
        httpFetch H allowedHosts allowPrivate resolve req = sendRequest H resolve url req := by
  cases hurl : H.parse req.url with
  | error e => exact .inl ⟨"invalid url: " ++ e, by simp only [httpFetch, hurl]⟩
  | ok url =>
    simp only [httpFetch, hurl]
    by_cases hscheme : H.scheme url ≠ "http".toList ∧ H.scheme url ≠ "https".toList
    · rw [if_pos hscheme]
      exact .inl ⟨_, rfl⟩
    rw [if_neg hscheme]
    by_cases hallowed : hostAllowed H allowedHosts url = true
    · have haccepted : (allowPrivate = false → ∀ ip, literalIp H url = some ip →
          isBlockedIp ip = false) → AcceptedTarget H allowedHosts allowPrivate req url :=
        fun hliteral => ⟨hurl, by tauto, hallowed, hliteral⟩
      rw [hallowed, Bool.not_true, if_neg Bool.false_ne_true]
      cases allowPrivate with
      | true => exact .inr ⟨url, haccepted (fun h => by cases h), rfl⟩
      | false =>
        rw [Bool.not_false, if_pos rfl]
        cases hip : literalIp H url with
        | none =>
          refine .inr ⟨url, haccepted (fun _ ip h => ?_), rfl⟩
          rw [hip] at h
          cases h
        | some ip =>
          by_cases hblocked : isBlockedIp ip = true
          · simp only [hblocked, if_true]
            exact .inl ⟨_, rfl⟩
          · simp only [hblocked]
            refine .inr ⟨url, haccepted (fun _ ip' h => ?_), rfl⟩
            obtain rfl : ip = ip' := Option.some.inj (hip.symm.trans h)
            simpa using hblocked
    · rw [Bool.not_eq_true] at hallowed
      rw [hallowed, Bool.not_false, if_pos rfl]
      exact .inl ⟨_, rfl⟩

/-- A sent request, and the response it becomes. -/
theorem sendRequest_cases (resolve : Str → Resolving) (url : H.Url) (req : HttpOut.Request) :
    (∃ e, sendRequest H resolve url req = refused e) ∨
      ∃ method, H.method req.method = .ok method ∧
        (sendRequest H resolve url req).connects =
          (H.send resolve method url req.body).connects ∧
        ∀ resp, (sendRequest H resolve url req).result = .ok resp ↔
          ∃ reply, ∃ parts : List (List UInt8), (H.send resolve method url req.body).reply = .ok reply ∧
            reply.chunks = parts.map .ok ∧ resp = ⟨reply.status, parts.flatten⟩ ∧
              resp.body.length ≤ MAX_HTTP_BODY_BYTES := by
  cases hmethod : H.method req.method with
  | error e => exact .inl ⟨"invalid method: " ++ e, by simp only [sendRequest, hmethod]⟩
  | ok method =>
    refine .inr ⟨method, rfl, by simp only [sendRequest, hmethod], fun resp => ?_⟩
    simp only [sendRequest, hmethod]
    cases hreply : (H.send resolve method url req.body).reply with
    | error e => simp [Except.mapError, bind, Except.bind]
    | ok reply =>
      have hread : ∀ out, readBody reply.chunks [] = .ok out ↔
          ∃ parts : List (List UInt8), reply.chunks = parts.map .ok ∧ out = [] ++ parts.flatten ∧
            out.length ≤ MAX_HTTP_BODY_BYTES := fun out => readBody_eq_ok (Nat.zero_le _)
      simp only [List.nil_append] at hread
      cases hbody : readBody reply.chunks [] with
      | error e =>
        simp only [Except.mapError, bind, Except.bind, hbody]
        constructor
        · intro h
          cases h
        · rintro ⟨reply', parts, hreply', hparts, rfl, hlen⟩
          obtain rfl : reply = reply' := Except.ok.inj hreply'
          have hok := (hread _).2 ⟨parts, hparts, rfl, hlen⟩
          rw [hbody] at hok
          cases hok
      | ok out =>
        simp only [Except.mapError, bind, Except.bind, hbody, pure, Except.pure,
          Except.ok.injEq]
        obtain ⟨parts, hparts, rfl, hlen⟩ := (hread _).1 hbody
        constructor
        · rintro rfl
          exact ⟨reply, parts, rfl, hparts, rfl, hlen⟩
        · rintro ⟨reply', parts', rfl, hparts', rfl, -⟩
          have heq : parts = parts' := List.map_injective_iff.2 (fun _ _ h => Except.ok.inj h)
            (hparts.symm.trans hparts')
          rw [heq]

end

/-! ## The two together -/

theorem hostAllowed_iff {H : HttpCrates} {allowedHosts : List Str} {url : H.Url} {host : Str}
    (hhost : H.hostStr url = some host) :
    hostAllowed H allowedHosts url = true ↔
      ∃ allowed ∈ allowedHosts, trimDots host = trimDots allowed := by
  simp only [hostAllowed, requestHost, hhost, Option.getD_some, List.any_eq_true, beq_iff_eq]
  constructor
  · rintro ⟨allowed, hmem, heq⟩
    exact ⟨allowed, hmem, heq.symm⟩
  · rintro ⟨allowed, hmem, heq⟩
    exact ⟨allowed, hmem, heq.symm⟩

section
variable {H : HttpCrates} {allowedHosts : List Str} {allowPrivate : Bool}
  {resolve : Str → Resolving} {req : HttpOut.Request}

/-- A connection is to the literal of an accepted target, or to what its name resolves to. -/
theorem httpFetch_connects (hH : H.Documented) {ip : IpAddr}
    (hip : ip ∈ (httpFetch H allowedHosts allowPrivate resolve req).connects) :
    ∃ url, AcceptedTarget H allowedHosts allowPrivate req url ∧ (H.host url).isSome ∧
      (literalIp H url = some ip ∨
        ∃ name addrs, resolve name = .ok addrs ∧ ip ∈ addrs.map SocketAddr.ip) := by
  rcases httpFetch_cases H allowedHosts allowPrivate resolve req with
    ⟨e, he⟩ | ⟨url, haccepted, hsend⟩
  · rw [he] at hip
    cases hip
  · rw [hsend] at hip
    rcases sendRequest_cases resolve url req with
      ⟨e, he⟩ | ⟨method, -, hconnects, -⟩
    · rw [he] at hip
      cases hip
    · rw [hconnects] at hip
      refine ⟨url, haccepted, ?_⟩
      rcases hH.connects resolve method url req.body ip hip with
        hliteral | ⟨name, addrs, hhost, haddrs, hmem⟩
      · refine ⟨?_, .inl hliteral⟩
        cases hhost : H.host url with
        | none =>
          simp only [literalIp, hhost] at hliteral
          cases hliteral
        | some host => rfl
      · exact ⟨by rw [hhost]; rfl, .inr ⟨name, addrs, haddrs, hmem⟩⟩

theorem httpFetch_response {resp : HttpOut.Response}
    (h : (httpFetch H allowedHosts allowPrivate resolve req).result = .ok resp) :
    ∃ url method reply, ∃ parts : List (List UInt8),
      H.parse req.url = .ok url ∧ H.method req.method = .ok method ∧
        (H.send resolve method url req.body).reply = .ok reply ∧
          reply.chunks = parts.map .ok ∧ resp = ⟨reply.status, parts.flatten⟩ ∧
            resp.body.length ≤ MAX_HTTP_BODY_BYTES := by
  rcases httpFetch_cases H allowedHosts allowPrivate resolve req with
    ⟨e, he⟩ | ⟨url, haccepted, hsend⟩
  · rw [he] at h
    cases h
  · rw [hsend] at h
    rcases sendRequest_cases resolve url req with
      ⟨e, he⟩ | ⟨method, hmethod, -, hresult⟩
    · rw [he] at h
      cases h
    · obtain ⟨reply, parts, hreply, hparts, hresp, hlen⟩ := (hresult resp).1 h
      exact ⟨url, method, reply, parts, haccepted.parsed, hmethod, hreply, hparts, hresp, hlen⟩

end

/-- Only allowed targets and unblocked addresses are connected to, the resolver hands back the
unblocked answers or an error, and a guest sees an error or a whole body within the cap. -/
theorem http_out_confined {ε : Type} (H : HttpCrates) (hH : H.Documented)
    (allowedHosts : List Str) (allowPrivate : Bool) (lookupHost : Str → Resolving)
    (req : HttpOut.Request) :
    (∀ ip ∈ (fetchOut (ε := ε) H allowedHosts allowPrivate lookupHost req).1,
        ∃ url host, H.parse req.url = .ok url ∧
          (H.scheme url = "http".toList ∨ H.scheme url = "https".toList) ∧
            H.hostStr url = some host ∧
              ∃ allowed ∈ allowedHosts, trimDots host = trimDots allowed) ∧
      (allowPrivate = false →
        ∀ ip ∈ (fetchOut (ε := ε) H allowedHosts allowPrivate lookupHost req).1,
          isBlockedIp ip = false) ∧
      (∀ host found, GuardedResolver.resolve false lookupHost host = .ok found ↔
        ∃ addrs, lookupHost host = .ok addrs ∧
          found = addrs.filter (fun a => !isBlockedIp a.ip) ∧ found ≠ []) ∧
      ∃ result, (fetchOut (ε := ε) H allowedHosts allowPrivate lookupHost req).2 = .ok result ∧
        ∀ resp, result = .ok resp →
          ∃ url method reply, ∃ parts : List (List UInt8),
            H.parse req.url = .ok url ∧ H.method req.method = .ok method ∧
              (H.send (GuardedResolver.resolve allowPrivate lookupHost) method url
                req.body).reply = .ok reply ∧
                reply.chunks = parts.map .ok ∧ resp = ⟨reply.status, parts.flatten⟩ ∧
                  resp.body.length ≤ MAX_HTTP_BODY_BYTES := by
  refine ⟨?_, ?_, fun host found => GuardedResolver.resolve_eq_ok, _, rfl,
    fun resp => httpFetch_response⟩
  · intro ip hip
    obtain ⟨url, haccepted, hhost, -⟩ := httpFetch_connects hH hip
    rw [← hH.hostStr] at hhost
    obtain ⟨host, hhost⟩ := Option.isSome_iff_exists.1 hhost
    exact ⟨url, host, haccepted.parsed, haccepted.scheme, hhost,
      (hostAllowed_iff hhost).1 haccepted.allowed⟩
  · intro hpublic ip hip
    subst hpublic
    obtain ⟨url, haccepted, -, hliteral | ⟨name, addrs, haddrs, hmem⟩⟩ :=
      httpFetch_connects hH hip
    · exact haccepted.literal rfl ip hliteral
    · exact GuardedResolver.resolve_unblocked haddrs hmem

/-! A client that takes `http://` and a domain, connects to the first address and is answered in
two chunks. -/

def plainCrates : HttpCrates where
  Url := Str
  Method := Str
  parse := fun s =>
    if "http://".toList <+: s ∧ s.length ≠ 7 then .ok (s.drop 7)
    else .error "relative URL without a base"
  scheme := fun _ => "http".toList
  host := fun url => some (.domain url)
  hostStr := fun url => some url
  method := fun s => .ok s
  send := fun resolve _ url _ =>
    match resolve url with
    | .ok addrs => ⟨(addrs.take 1).map SocketAddr.ip, .ok ⟨200, [.ok [104], .ok [105]]⟩⟩
    | .error e => ⟨[], .error e⟩
  display := fun _ => []

theorem plainCrates_documented : plainCrates.Documented := by
  constructor
  · intro url
    rfl
  · intro resolve method url body ip hip
    right
    simp only [plainCrates] at hip
    cases haddrs : resolve url with
    | error e =>
      rw [haddrs] at hip
      cases hip
    | ok addrs =>
      rw [haddrs] at hip
      obtain ⟨addr, haddr, rfl⟩ := List.mem_map.1 hip
      exact ⟨url, addrs, rfl, haddrs, List.mem_map_of_mem (List.mem_of_mem_take haddr)⟩

/-- The private answer is dropped, the public one connected to. -/
theorem http_out_confined_plain :
    let lookupHost : Str → Resolving := fun _ =>
      .ok [⟨.v4 ⟨10, 0, 0, 1⟩, 0⟩, ⟨.v4 ⟨1, 1, 1, 1⟩, 0⟩]
    let fetched := fetchOut (ε := Unit) plainCrates ["a.com".toList] false lookupHost
      ⟨"http://a.com.".toList, "GET".toList, []⟩
    fetched = ([.v4 ⟨1, 1, 1, 1⟩], .ok (.ok ⟨200, [104, 105]⟩)) ∧
      ∀ ip ∈ fetched.1, isBlockedIp ip = false := by
  refine ⟨by decide, ?_⟩
  exact (http_out_confined plainCrates plainCrates_documented _ _ _ _).2.1 rfl

end Warpline
