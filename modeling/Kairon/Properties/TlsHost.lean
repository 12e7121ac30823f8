import Kairon.Adapter.FluxVM

/-!
# The host name of a migration's TLS stream

The destination's adapter writes `tcp:host:port`, without brackets, and the source's adapter takes
the host out of it again to verify the certificate of its peer. An IPv6 address has colons of its
own.

* `endpointHost_endpoint_iff`: the hosts that survive the endpoint
* `tls_host_kept_iff`: what the two adapters make of a host
-/

namespace Kairon.Adapter

open Infra GoText GoNet Migration Cluster

theorem plain_port (port : UInt16) : Plain (toString port.toNat) := by
  have hdigit : ∀ c ∈ (toString port.toNat).toList, c.isDigit = true := by
    intro c hc
    rw [Nat.toString_eq_repr, Nat.toList_repr] at hc
    exact Nat.isDigit_of_mem_toDigits (by decide) (by decide) hc
  refine ⟨fun h => ?_, fun h => ?_, fun h => ?_⟩ <;> exact absurd (hdigit _ h) (by decide)

theorem endpointHost_endpoint_iff (host : String) (port : UInt16) :
    endpointHost (endpoint host port) = host ∧ host ≠ "" ↔ host ≠ "" ∧ Plain host := by
  rw [and_comm]
  refine and_congr_right fun hne => ?_
  rw [← splitHostPort_eq_host_iff (plain_port port), endpointHost, endpoint, cutPrefix_append]
  cases hsplit : splitHostPort (host ++ ":" ++ toString port.toNat) with
  | error e =>
    simp only [hsplit]
    simp [Ne.symm hne]
  | ok parts =>
    obtain ⟨host', p⟩ := parts
    simp only [hsplit]
    simp

variable (ip : String) (a : Settings)

theorem prepare_follows (D : Decoders) (session : Session) :
    (prepare a D (.ok session)).Follows (fun _ _ => True) (fun _ reply =>
      ∀ result, reply = .prepared result → result.transferSupported = true →
        ∃ host bindAddress port, a.addresses session = some (host, bindAddress) ∧
          result.endpoint = endpoint host port) [] := by
  simp only [prepare]
  split
  · exact nofun
  split
  · intro result h hsupported
    cases h
    cases hsupported
  · next host bindAddress haddr =>
    generalize (if session.backend = "" then "qemu" else session.backend) = backend
    refine ⟨trivial, fun response => ?_⟩
    dsimp only
    split
    · intro result h hsupported
      cases h
      cases hsupported
    · next info _ =>
      refine ⟨trivial, fun _ result h _ => ?_⟩
      cases h
      exact ⟨host, bindAddress, info.port, haddr, rfl⟩

theorem sourceStart_follows (D : Decoders) (req : SourceRequest) :
    (sourceStart a D (.ok req)).Follows
      (fun _ e => ∀ runtimeID body, e = .flux (.start runtimeID body) → body = a.startRequest req)
      (fun _ _ => True) [] := by
  simp only [sourceStart]
  split
  · trivial
  · refine ⟨fun runtimeID body h => ?_, fun response => ?_⟩
    · cases h
      rfl
    · dsimp only
      split
      · trivial
      · exact ⟨fun _ _ h => (by cases h), fun _ => trivial⟩

/-- What the source's adapter sends for the endpoint that the destination's adapter has built: the
host of the destination and a name to verify, exactly for a plain host. -/
theorem tls_host_kept_iff {dest source : Settings} {D D' : Decoders} {session : Session}
    {host bindAddress : String} (haddr : dest.addresses session = some (host, bindAddress))
    {past : List (Event AdapterOp.Ans)} {result : PrepareResult}
    (hprepared : (prepare dest D (.ok session)).Becomes past (.ret (.prepared result)))
    (hsupported : result.transferSupported = true) (htls : source.tlsCA ≠ "")
    {req : SourceRequest} (hreq : req.endpoint = result.endpoint)
    {past' : List (Event AdapterOp.Ans)} {runtimeID : String} {body : MigrationStartRequest}
    {k : Response → AdapterProg}
    (hsent : (sourceStart source D' (.ok req)).Becomes past'
      (.call (.flux (.start runtimeID body)) k)) :
    (endpointHost result.endpoint = host ∧
        ∃ tls, body.tls = some tls ∧ tls.tlsHostname = host ∧ tls.tlsHostname ≠ "") ↔
      host ≠ "" ∧ Plain host := by
  obtain ⟨host', bindAddress', port, haddr', hendpoint⟩ :=
    hprepared.follows (prepare_follows dest D session) result rfl hsupported
  obtain ⟨rfl, rfl⟩ : host' = host ∧ bindAddress' = bindAddress := by
    rw [haddr] at haddr'
    simpa [eq_comm] using haddr'
  have hbody : body = source.startRequest req :=
    (hsent.follows (sourceStart_follows source D' req)).1 runtimeID body rfl
  rw [← endpointHost_endpoint_iff host' port, hbody, hendpoint]
  simp only [Settings.startRequest, Settings.migrationTLSSpec, if_neg htls, hreq, hendpoint,
    Option.some.injEq, exists_eq_left']
  constructor
  · rintro ⟨hhost, -, hne⟩
    exact ⟨hhost, hhost ▸ hne⟩
  · rintro ⟨hhost, hne⟩
    exact ⟨hhost, hhost, by rwa [hhost]⟩

/-! ## An IPv4 and an IPv6 network -/

def storageFlags : Flags where
  migrationNetworks := ["storage=" ++ ip]
  dataTLS := true
  tlsCA := "/tls/ca.crt"
  tlsCert := "/tls/tls.crt"
  tlsKey := "/tls/tls.key"

def storageSettings : Settings :=
  ⟨"127.0.0.1", "virbr0", 300, [("storage", ip)], "/tls/ca.crt", "/tls/tls.crt", "/tls/tls.key"⟩

def storageSession : Session :=
  ⟨"s-1", "default", "web", "node-a", "node-b", "vm-1", .prepared, "qemu", "", false, "", false, "",
    "", "/disks/web.qcow2", "52:54:00:00:00:01", 2, 2048, "storage", 0, 0⟩

def storageDecoders : Decoders := ⟨fun _ => .ok ⟨"r-1", 49152⟩, fun _ => .error ""⟩

def storageSource (endpoint : String) : SourceRequest :=
  ⟨storageSession, "vm-1", endpoint, ⟨"", 0, 0, 0⟩⟩

theorem storage_prepared :
    ∃ past, (prepare (storageSettings ip) storageDecoders (.ok storageSession)).Becomes past
      (.ret (.prepared ⟨true, endpoint ip 49152, "qemu", "", true⟩)) := by
  have asked := Prog.Becomes.call
    (Prog.Becomes.refl (p := prepare (storageSettings ip) storageDecoders (.ok storageSession)))
    (Response.answered 201 "receiver")
  exact ⟨_, asked.call ()⟩

theorem storage_sent {ip endpoint : String} {body : MigrationStartRequest}
    (hbody : (storageSettings ip).startRequest (storageSource endpoint) = body) :
    ∃ past k, (sourceStart (storageSettings ip) storageDecoders
        (.ok (storageSource endpoint))).Becomes past (.call (.flux (.start "vm-1" body)) k) := by
  subst hbody
  exact ⟨_, _, .refl⟩

/-- The flags take the IPv6 address, and the source's adapter has no name to verify. -/
theorem ipv6_host_lost : (storageFlags "fd00::1").settings = .ok (storageSettings "fd00::1") ∧
    (storageSettings "fd00::1").addresses storageSession = some ("fd00::1", "fd00::1") ∧
    (∃ past, (prepare (storageSettings "fd00::1") storageDecoders (.ok storageSession)).Becomes past
      (.ret (.prepared ⟨true, "tcp:fd00::1:49152", "qemu", "", true⟩))) ∧
    endpointHost "tcp:fd00::1:49152" = "" ∧
    ∃ past k, (sourceStart (storageSettings "fd00::1") storageDecoders
        (.ok (storageSource "tcp:fd00::1:49152"))).Becomes past
      (.call (.flux (.start "vm-1" ⟨"tcp:fd00::1:49152", "pre-copy", 0, 0, 0,
        some ⟨"/tls/ca.crt", "/tls/tls.crt", "/tls/tls.key", ""⟩⟩)) k) := by
  exact ⟨by decide, by decide, storage_prepared "fd00::1", by decide, storage_sent (by decide)⟩

theorem ipv4_host_kept : endpointHost (endpoint "10.0.0.7" 49152) = "10.0.0.7" ∧
      ∃ tls, ((storageSettings "10.0.0.7").startRequest
          (storageSource (endpoint "10.0.0.7" 49152))).tls = some tls ∧
        tls.tlsHostname = "10.0.0.7" ∧ tls.tlsHostname ≠ "" := by
  have haddr : (storageSettings "10.0.0.7").addresses storageSession =
      some ("10.0.0.7", "10.0.0.7") := by decide
  obtain ⟨past, hprepared⟩ := storage_prepared "10.0.0.7"
  obtain ⟨past', k, hsent⟩ := @storage_sent "10.0.0.7" (endpoint "10.0.0.7" 49152) _ rfl
  exact (tls_host_kept_iff haddr hprepared rfl (by decide) rfl hsent).mpr (by decide)

end Kairon.Adapter
