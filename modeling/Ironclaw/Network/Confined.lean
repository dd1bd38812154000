import Ironclaw.Network.Egress

/-! # Egress stays inside the policy

Every call of the transport has passed the authorization and the check of its addresses
(`prepare_ok`), whatever the answers were that led to it; this and the rest of what is promised of the
calls (`Conduct`) goes through the loop by induction on the redirects that remain
(`conduct_executeFrom`). -/

namespace Ironclaw.Network

open Resources (U64)

/-! ### What a policy means -/

/-- A host matches a pattern: any host, a host with one more label, or the very host. -/
inductive HostMatches (host : String) : String → Prop
  | any : HostMatches host "*"
  | label (label last : String) (heq : host = label ++ ("." ++ last)) (hne : label ≠ "")
      (hdot : Text.contains label "." = false) : HostMatches host ("*." ++ last)
  | exact : HostMatches host host

/-- The target agrees with a pattern where the pattern says something. -/
structure Matches (target : NetworkTarget) (pattern : NetworkTargetPattern) : Prop where
  scheme : ∀ scheme, pattern.scheme = some scheme → target.scheme = scheme
  port : ∀ port, pattern.port = some port → target.port = some port
  host : HostMatches (Text.toAsciiLowercase target.host) (Text.toAsciiLowercase pattern.hostPattern)

def Allows (policy : NetworkPolicy) (target : NetworkTarget) : Prop :=
  ∃ pattern ∈ policy.allowedTargets, Matches target pattern

/-- The policy lets the target reach an address: a private one only where one host is exempt by name,
and then none of those that are always blocked. -/
def Reaches (policy : NetworkPolicy) (target : NetworkTarget) (ip : IpAddr) : Prop :=
  policy.denyPrivateIpRanges = true → isPrivateOrLoopbackIp ip = true →
    isAlwaysBlockedIp ip = false ∧
      ∃ pattern ∈ policy.privateNetworkTargets,
        Text.contains pattern.hostPattern "*" = false ∧ Matches target pattern

theorem hostMatches_of_true {host pattern : String} (h : hostMatchesPattern host pattern = true) :
    HostMatches (Text.toAsciiLowercase host) (Text.toAsciiLowercase pattern) := by
  unfold hostMatchesPattern at h
  dsimp only at h
  generalize Text.toAsciiLowercase host = host at h ⊢
  generalize Text.toAsciiLowercase pattern = pattern at h ⊢
  split at h
  · rename_i hany
    rw [hany]
    exact .any
  · split at h
    · rename_i last hlast
      split at h
      · cases h
      · rename_i label hlabel
        rw [Text.eq_of_stripHead hlast]
        rw [decide_eq_true_eq] at h
        exact .label label last (Text.eq_of_stripLast hlabel) h.1 (by simpa using h.2)
    · rw [of_decide_eq_true h]
      exact .exact

variable {target : NetworkTarget}

theorem matches_of_true {pattern : NetworkTargetPattern}
    (h : targetMatchesPattern target pattern = true) : Matches target pattern := by
  unfold targetMatchesPattern at h
  split at h
  · cases h
  rename_i hscheme
  split at h
  · cases h
  rename_i hport
  refine ⟨?_, ?_, hostMatches_of_true h⟩
  · intro scheme heq
    by_contra hne
    exact hscheme ⟨by rw [heq]; rfl, by rw [heq]; simpa using Ne.symm hne⟩
  · intro port heq
    by_contra hne
    exact hport ⟨by rw [heq]; rfl, by rw [heq]; exact fun h => hne h.symm⟩

variable {policy : NetworkPolicy}

theorem allows_of_true (h : networkPolicyAllows policy target = true) : Allows policy target := by
  unfold networkPolicyAllows at h
  split at h
  · cases h
  split at h
  · cases h
  · obtain ⟨pattern, hmem, hmatches⟩ := List.any_eq_true.1 h
    exact ⟨pattern, hmem, matches_of_true hmatches⟩

theorem reaches_of_not_denied {ip : IpAddr}
    (h : privateIpDenied policy target ip = false) : Reaches policy target ip := by
  intro hdeny hprivate
  unfold privateIpDenied at h
  rw [if_neg (by simp [hdeny, hprivate]), Bool.or_eq_false_iff, Bool.not_eq_false'] at h
  obtain ⟨hblocked, hexempt⟩ := h
  obtain ⟨pattern, hmem, hmatches⟩ := List.any_eq_true.1 hexempt
  rw [List.mem_filter] at hmem
  exact ⟨hblocked, pattern, hmem.1, by simpa using hmem.2, matches_of_true hmatches⟩

/-! ### What has been checked before a call -/

theorem checkEgress_ok {request : NetworkRequest}
    (h : checkEgress policy request = .ok ()) {limit : U64} (hlimit : policy.maxEgressBytes = some limit) :
    ∃ estimated, request.estimatedBytes = some estimated ∧ estimated.val ≤ limit.val := by
  unfold checkEgress at h
  rw [hlimit] at h
  dsimp only at h
  split at h
  · cases h
  · rename_i estimated hestimated
    split at h
    · cases h
    · rename_i hle
      exact ⟨estimated, hestimated, not_lt.1 hle⟩

theorem authorizeStaticPolicy_ok {request : NetworkRequest}
    {permit : NetworkPermit} (h : authorizeStaticPolicy policy request = .ok permit) :
    permit.method = request.method ∧ Allows policy request.target ∧
      ∀ limit, policy.maxEgressBytes = some limit →
        ∃ estimated, request.estimatedBytes = some estimated ∧ estimated.val ≤ limit.val := by
  unfold authorizeStaticPolicy at h
  obtain ⟨-, -, h⟩ := bind_eq_ok.1 h
  obtain ⟨_, hegress, h⟩ := bind_eq_ok.1 h
  obtain ⟨-, -, h⟩ := bind_eq_ok.1 h
  obtain ⟨_, hallowed, h⟩ := bind_eq_ok.1 h
  rw [rejectIf_eq_ok, Bool.not_eq_false] at hallowed
  rw [pure_eq_ok] at h
  subst h
  exact ⟨rfl, allows_of_true hallowed, fun limit hlimit => checkEgress_ok hegress hlimit⟩

variable {resolved : List IpAddr}

theorem resolvePublicIps_ok {resolveIps : String → BitVec 16 → Except NetworkHttpError (List IpAddr)}
    {requestBytes : U64}
    (h : resolvePublicIps resolveIps target policy requestBytes = .ok resolved) :
    resolveTarget resolveIps target requestBytes = .ok resolved ∧
      ∀ ip ∈ resolved, Reaches policy target ip := by
  unfold resolvePublicIps at h
  obtain ⟨ips, hips, h⟩ := bind_eq_ok.1 h
  obtain ⟨-, -, h⟩ := bind_eq_ok.1 h
  obtain ⟨_, hdenied, h⟩ := bind_eq_ok.1 h
  rw [pure_eq_ok] at h
  subst h
  refine ⟨hips, fun ip hip => reaches_of_not_denied ?_⟩
  rw [rejectIf_eq_ok, Bool.not_eq_true, List.any_eq_false] at hdenied
  simpa using hdenied ip hip

variable {world : World}

theorem resolveInWorker_ok {hop : ℕ} {requestBytes : U64}
    (h : resolveInWorker world hop target policy requestBytes = .ok resolved) :
    resolvePublicIps (world.resolveIps hop) target policy requestBytes = .ok resolved := by
  unfold resolveInWorker at h
  split at h
  · cases h
  · exact h

theorem resolveTarget_ok {resolveIps : String → BitVec 16 → Except NetworkHttpError (List IpAddr)}
    {requestBytes : U64} (h : resolveTarget resolveIps target requestBytes = .ok resolved) :
    (∃ ip, IpAddr.parse target.host = some ip ∧ resolved = [ip]) ∨
      resolveIps target.host (target.port.getD (defaultPort target.scheme)) = .ok resolved := by
  unfold resolveTarget at h
  split at h
  · rename_i ip hip
    rw [Except.ok.injEq] at h
    exact .inl ⟨ip, hip, h.symm⟩
  · refine .inr ?_
    cases hresolve : resolveIps target.host (target.port.getD (defaultPort target.scheme)) with
    | ok ips =>
      rw [hresolve] at h
      exact h
    | error error =>
      rw [hresolve] at h
      cases h

/-- A call of the transport that keeps to the policy: its target is allowed, its addresses are those
that the target has and may reach, and it is not too large. -/
structure Confined (crate : UrlCrate) (world : World) (policy : NetworkPolicy) (hop : ℕ)
    (sent : NetworkTransportRequest) (target : NetworkTarget) : Prop where
  url : networkTargetForUrl crate sent.url = .ok target
  allowed : Allows policy target
  resolved : (∃ ip, IpAddr.parse target.host = some ip ∧ sent.resolvedIps = [ip]) ∨
    world.resolveIps hop target.host (target.port.getD (defaultPort target.scheme)) =
      .ok sent.resolvedIps
  reaches : ∀ ip ∈ sent.resolvedIps, Reaches policy target ip
  estimate : ∀ limit, policy.maxEgressBytes = some limit →
    (estimateHttpRequestBytes sent.method sent.url sent.headers sent.body).val ≤ limit.val

variable {request : NetworkHttpRequest} {crate : UrlCrate} {sent : NetworkTransportRequest}

/-- What has been checked before a call of the transport. -/
theorem prepare_ok {hop : ℕ} (h : prepare crate world hop request = .ok sent) :
    (∃ target, Confined crate world request.policy hop sent target) ∧
      sent.method = request.method ∧ sent.headers = request.headers ∧ sent.body = request.body := by
  unfold prepare at h
  dsimp only at h
  obtain ⟨-, -, h⟩ := bind_eq_ok.1 h
  obtain ⟨target, htarget, h⟩ := bind_eq_ok.1 h
  obtain ⟨permit, hpermit, h⟩ := bind_eq_ok.1 h
  obtain ⟨resolved, hresolved, h⟩ := bind_eq_ok.1 h
  rw [pure_eq_ok] at h
  subst h
  rw [networkTargetForHttpUrl, mapError_eq_ok] at htarget
  rw [mapError_eq_ok] at hpermit
  obtain ⟨hmethod, hallowed, hestimate⟩ := authorizeStaticPolicy_ok hpermit
  obtain ⟨hresolve, hreaches⟩ := resolvePublicIps_ok (resolveInWorker_ok hresolved)
  refine ⟨⟨target, htarget, hallowed, resolveTarget_ok hresolve, hreaches, ?_⟩, hmethod, rfl, rfl⟩
  intro limit hlimit
  obtain ⟨estimated, heq, hle⟩ := hestimate limit hlimit
  rw [Option.some.injEq] at heq
  rw [hmethod, heq]
  exact hle

/-! ### The loop -/

/-- What is promised of the calls that are made from some hop on, and of the result. -/
structure Conduct (crate : UrlCrate) (world : World) (redirectsRemaining hop : ℕ)
    (request : NetworkHttpRequest) (result : Except NetworkHttpError NetworkHttpResponse)
    (hops : List Hop) : Prop where
  confined : ∀ i call, hops[i]? = some call →
    ∃ target, Confined crate world request.policy (hop + i) call.request target
  method : ∀ call ∈ hops, call.request.method = request.method
  stripped : ∀ call ∈ hops.tail, call.request.headers = [] ∧ call.request.body = []
  first : ∀ call ∈ hops.head?, call.request.headers = request.headers ∧
    call.request.body = request.body
  bounded : hops.length ≤ redirectsRemaining + 1
  followed : 1 < hops.length → followsRedirects request.method = true
  last : ∀ response, result = .ok response → hops.getLast?.map Hop.response = some (.ok response)

variable {redirectsRemaining hop : ℕ}

theorem Conduct.single
        {result answer : Except NetworkHttpError NetworkHttpResponse}
    (hsent : prepare crate world hop request = .ok sent)
    (hresult : ∀ response, result = .ok response → answer = .ok response) :
    Conduct crate world redirectsRemaining hop request result [⟨sent, answer⟩] := by
  obtain ⟨hconfined, hmethod, hheaders, hbody⟩ := prepare_ok hsent
  refine ⟨?_, ?_, List.forall_mem_nil _, ?_, Nat.le_add_left 1 _, ?_, ?_⟩
  · intro i call hcall
    obtain ⟨rfl, rfl⟩ : i = 0 ∧ call = ⟨sent, answer⟩ := by
      cases i with
      | zero => exact ⟨rfl, (Option.some.inj hcall).symm⟩
      | succ i => cases hcall
    exact hconfined
  · intro call hcall
    rw [List.mem_singleton.1 hcall]
    exact hmethod
  · intro call hcall
    cases hcall
    exact ⟨hheaders, hbody⟩
  · intro hlong
    exact absurd hlong (lt_irrefl 1)
  · intro response hok
    rw [hresult response hok]
    rfl

theorem Conduct.refused (error : NetworkHttpError) :
    Conduct crate world redirectsRemaining hop request (.error error) [] where
  confined := by simp
  method := List.forall_mem_nil _
  stripped := List.forall_mem_nil _
  first := by simp
  bounded := Nat.zero_le _
  followed := fun hlong => absurd hlong (by simp)
  last := by simp

theorem followsRedirects_of_redirectUrl {response : NetworkHttpResponse} {url : String}
    (h : redirectUrl crate request response = .ok (some url)) :
    followsRedirects request.method = true := by
  unfold redirectUrl at h
  split at h
  · cases h
  · rename_i hnot
    rw [not_or, Bool.not_eq_false, Bool.not_eq_false] at hnot
    exact hnot.2

/-- A call that is followed by what is made of its redirect. -/
theorem Conduct.cons {response : NetworkHttpResponse} {url : String}
    {result : Except NetworkHttpError NetworkHttpResponse} {hops : List Hop}
    (hsent : prepare crate world hop request = .ok sent)
    (hurl : redirectUrl crate request response = .ok (some url))
    (h : Conduct crate world redirectsRemaining (hop + 1)
      { request with
        url := url
        headers := []
        body := [] } result hops) :
    Conduct crate world (redirectsRemaining + 1) hop request result
      (⟨sent, .ok response⟩ :: hops) := by
  obtain ⟨hconfined, hmethod, hheaders, hbody⟩ := prepare_ok hsent
  refine ⟨?_, ?_, ?_, ?_, Nat.succ_le_succ h.bounded, ?_, ?_⟩
  · intro i call hcall
    cases i with
    | zero =>
      obtain rfl := Option.some.inj hcall
      exact hconfined
    | succ i =>
      rw [← Nat.add_assoc, Nat.add_right_comm]
      exact h.confined i call hcall
  · intro call hcall
    rcases List.mem_cons.1 hcall with rfl | hcall
    · exact hmethod
    · exact h.method call hcall
  · intro call hcall
    -- the first of the later calls has what the loop left in the request, which is nothing
    rw [List.tail_cons] at hcall
    cases hops with
    | nil => exact absurd hcall List.not_mem_nil
    | cons next rest =>
      rcases List.mem_cons.1 hcall with rfl | hcall
      · exact h.first call rfl
      · exact h.stripped call hcall
  · intro call hcall
    cases hcall
    exact ⟨hheaders, hbody⟩
  · exact fun _ => followsRedirects_of_redirectUrl hurl
  · intro answer hok
    have hlast := h.last answer hok
    cases hops with
    | nil => cases hlast
    | cons next rest => exact hlast

theorem conduct_executeFrom (crate : UrlCrate) (world : World) (redirectsRemaining hop : ℕ)
    (request : NetworkHttpRequest) :
    Conduct crate world redirectsRemaining hop request
      (executeFrom crate world redirectsRemaining hop request).1
      (executeFrom crate world redirectsRemaining hop request).2 := by
  induction redirectsRemaining generalizing hop request with
  | zero =>
    unfold executeFrom
    cases hsent : prepare crate world hop request with
    | error error => exact .refused error
    | ok sent =>
      dsimp only
      cases world.transport hop sent with
      | error error => exact .single hsent nofun
      | ok response => exact .single hsent fun _ hok => hok
  | succ redirectsRemaining ih =>
    unfold executeFrom
    cases hsent : prepare crate world hop request with
    | error error => exact .refused error
    | ok sent =>
      dsimp only
      cases world.transport hop sent with
      | error error => exact .single hsent nofun
      | ok response =>
        dsimp only
        match hurl : redirectUrl crate request response with
        | .error error => exact .single hsent nofun
        | .ok none => exact .single hsent fun _ hok => hok
        | .ok (some url) => exact .cons hsent hurl (ih (hop + 1) _)

/-- Every call of the transport keeps to the policy of the request; the calls after the first have no
header and no body and are made for GET and HEAD only; there are four of them at most; and the
response that is returned is that of the last one. -/
theorem egress_confined (crate : UrlCrate) (world : World) (request : NetworkHttpRequest) :
    let result := (execute crate world request).1
    let hops := (execute crate world request).2
    (∀ i call, hops[i]? = some call →
        ∃ target, Confined crate world request.policy i call.request target) ∧
      (∀ call ∈ hops.tail, call.request.headers = [] ∧ call.request.body = []) ∧
      (1 < hops.length → request.method = .get ∨ request.method = .head) ∧
      hops.length ≤ 4 ∧
      ∀ response, result = .ok response →
        ∃ call, hops.getLast? = some call ∧ call.response = .ok response := by
  have h := conduct_executeFrom crate world maxRedirects 0 request
  refine ⟨?_, h.stripped, ?_, h.bounded, ?_⟩
  · intro i call hcall
    have hconfined := h.confined i call hcall
    rw [Nat.zero_add] at hconfined
    exact hconfined
  · intro hlong
    have hfollows := h.followed hlong
    cases hmethod : request.method with
    | get => exact .inl rfl
    | head => exact .inr rfl
    | post | put | patch | delete =>
      rw [hmethod] at hfollows
      cases hfollows
  · intro response hok
    exact Option.map_eq_some_iff.1 (h.last response hok)

end Ironclaw.Network
