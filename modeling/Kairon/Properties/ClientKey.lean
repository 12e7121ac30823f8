import Kairon.Infra.GoNet

/-!
# The rate limit behind a proxy

A proxy puts the address of its peer at the end of the forwarding header, and `clientIP` takes the
entry at the front, which is what the client has sent. A client that changes it is counted anew.

* `clientIP_forwardedRequest`: the key of a request that a proxy has forwarded
* `same_client_key_iff`: when two requests of a client have one key
-/

namespace Kairon.Ui

open Infra.GoText Infra.GoNet

structure ProxySettings where
  trustedProxyHeader : String
  trustedProxyCIDRs : List IPNet

structure HttpRequest where
  remoteAddr : String
  header : String → String

def remoteIP (remoteAddr : String) : String :=
  match splitHostPort remoteAddr with
  | .error _ => remoteAddr
  | .ok (host, _) => host

def firstEntry (header : String) : String :=
  trimSpace ((cut header ',').elim header Prod.fst)

variable (s : ProxySettings)

/-- The peer of a request is a proxy whose header `clientIP` believes. -/
def ProxySettings.trusts (remoteAddr : String) : Bool :=
  s.trustedProxyHeader ≠ "" && s.trustedProxyCIDRs ≠ [] &&
    (parseIP (remoteIP remoteAddr)).any fun peer => s.trustedProxyCIDRs.any (·.contains peer)

def clientIP (r : HttpRequest) : String :=
  let direct := remoteIP r.remoteAddr
  if ¬s.trusts r.remoteAddr then direct
  else
    let header := r.header s.trustedProxyHeader
    if header = "" then direct
    else
      let forwarded := firstEntry header
      if parseIP forwarded = none then direct else forwarded

def appendPeer (sent client : String) : String :=
  if sent = "" then client else sent ++ ", " ++ client

def forwardedRequest (proxy client sent : String) : HttpRequest where
  remoteAddr := proxy
  header name := if name = s.trustedProxyHeader then appendPeer sent client else ""

/-- The entry of the header that is taken: the first that the client sent, else its address. -/
def leading (client sent : String) : String :=
  if sent = "" then firstEntry client else firstEntry sent

theorem firstEntry_appendPeer (sent client : String) :
    firstEntry (appendPeer sent client) = leading client sent := by
  unfold appendPeer leading
  split
  · rfl
  -- what stands before the first comma is the same, with and without what is appended
  · unfold firstEntry
    cases hcut : cut sent ',' with
    | none =>
      have hnot : ',' ∉ sent.toList := by
        intro hmem
        obtain ⟨before, after, hsent, hbefore⟩ := List.eq_append_cons_of_mem hmem
        have hsome : cut sent ',' = some (String.ofList before, String.ofList after) :=
          cut_of_toList (by simpa using hsent) (by simpa using hbefore)
        simp [hsome] at hcut
      have hjoined : cut (sent ++ ", " ++ client) ',' = some (sent, " " ++ client) :=
        cut_of_toList (by simp) hnot
      rw [hjoined]
      rfl
    | some parts =>
      obtain ⟨before, after⟩ := parts
      obtain ⟨hsent, hbefore⟩ := cut_eq_some hcut
      have hjoined : cut (sent ++ ", " ++ client) ',' = some (before, after ++ ", " ++ client) :=
        cut_of_toList (by simp [hsent]) hbefore
      rw [hjoined]
      rfl

/-- The entry that is taken is an address, and not the proxy's. -/
def Foreign (proxy client sent : String) : Prop :=
  parseIP (leading client sent) ≠ none ∧ leading client sent ≠ remoteIP proxy

theorem clientIP_forwardedRequest (proxy client sent : String) :
    clientIP s (forwardedRequest s proxy client sent) =
      if s.trusts proxy ∧ parseIP (leading client sent) ≠ none then leading client sent
      else remoteIP proxy := by
  simp only [clientIP, forwardedRequest, if_true]
  by_cases htrusts : s.trusts proxy = true
  · by_cases hempty : appendPeer sent client = ""
    · -- nothing was sent and nothing appended: there is no address in front
      have hnone : parseIP (leading client sent) = none := by
        rw [← firstEntry_appendPeer, hempty]
        decide
      simp [htrusts, hempty, hnone]
    · rw [firstEntry_appendPeer]
      by_cases hparse : parseIP (leading client sent) = none <;> simp [htrusts, hempty, hparse]
  · simp [htrusts]

/-- Two requests of one client through one proxy have the same key exactly if the proxy is not
trusted, or the first entries that the client sent are the same, or neither of them is an address
other than the proxy's. -/
theorem same_client_key_iff (s : ProxySettings) (proxy client sent sent' : String) :
    clientIP s (forwardedRequest s proxy client sent) =
        clientIP s (forwardedRequest s proxy client sent') ↔
      s.trusts proxy = false ∨ leading client sent = leading client sent' ∨
        (¬Foreign proxy client sent ∧ ¬Foreign proxy client sent') := by
  rw [clientIP_forwardedRequest, clientIP_forwardedRequest]
  cases htrusts : s.trusts proxy with
  | false => simp
  | true =>
    by_cases hparse : parseIP (leading client sent) = none <;>
      by_cases hparse' : parseIP (leading client sent') = none <;>
        simp only [Foreign, hparse, hparse', ne_eq, not_true_eq_false, not_false_eq_true, and_true,
          and_false, false_and, true_and, if_true, if_false, Bool.true_eq_false, false_or, not_not]
    · simp
    · constructor
      · exact fun h => .inr h.symm
      · rintro (h | h)
        · exact absurd (h ▸ hparse) hparse'
        · exact h.symm
    · constructor
      · exact fun h => .inr h
      · rintro (h | h)
        · exact absurd (h ▸ hparse') hparse
        · exact h
    · constructor
      · exact .inl
      · rintro (h | ⟨h, h'⟩)
        · exact h
        · rw [h, h']

def behindProxy : ProxySettings := ⟨"X-Forwarded-For", [⟨[10, 0, 0, 0], [255, 0, 0, 0]⟩]⟩

/-- The client 203.0.113.9 sends two texts and has two keys; without a text it has its own. -/
theorem client_picks_its_key :
    clientIP behindProxy (forwardedRequest behindProxy "10.1.2.3:40000" "203.0.113.9"
        "198.51.100.1") = "198.51.100.1" ∧
      clientIP behindProxy (forwardedRequest behindProxy "10.1.2.3:40000" "203.0.113.9"
        "198.51.100.2") = "198.51.100.2" ∧
      clientIP behindProxy (forwardedRequest behindProxy "10.1.2.3:40000" "203.0.113.9" "") =
        "203.0.113.9" := by
  decide +kernel

end Kairon.Ui
