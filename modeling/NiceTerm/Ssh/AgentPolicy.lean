/-
The policy of agent forwarding, over everything that a channel does.
-/
import NiceTerm.Ssh.AgentBroker

namespace NiceTerm.Ssh.Agent

open List Option
open RustStr (Str)

variable {Key : Type}

section

variable (unix : Bool) (config : SshAgentForwardingConfig)
  (crypto : Crypto Key) (store : KeyStore Key)

/-- The requests that may reach an agent. -/
def MayReach (history : List (Effect Key)) (agent : Nat) (request : Bytes) :
    Prop :=
  request = [requestIdentities] ∨ (∃ sign, request.head? = some signRequest ∧
      parseSignRequest request = some sign ∧
      allows config (crypto.fingerprint sign.blob) = true ∧
      .enumerated (.external agent) sign.blob ∈ history) ∨
    ∃ name, request.head? = some extension ∧ parseExtensionRequest request =
      some name ∧ (name = sessionBindExtension ∨ name = queryExtension) ∧
      (configuredExternalEndpoints unix config).length = 1 ∧ config.storedKeys
      = false

/-- The answers to the remote side.  Identities are listed only if the policy
allows them; other answers are refusals, a signature that has just been made, or
what an agent has just answered to this very request. -/
def MayReply (history : List (Effect Key)) (request response : Bytes) : Prop :=
  if request = [requestIdentities] then
    response = failureFrame ∨
      ∃ identities, identitiesFrame identities = some response ∧
        ∀ identity ∈ identities,
          allows config (crypto.fingerprint identity.1) = true
  else
    response = failureFrame ∨ response = extensionFailureFrame ∨
      (∃ agent payload, response = frame payload ∧
        history.head? = some (.answered agent request request payload)) ∨
      ∃ key blob loadedAt current signature,
        response = frame (signResponse :: encodeString signature) ∧
        history.head? = some (.signed key blob loadedAt current)

/-- What the policy asks of an effect, given those before it. -/
def Permitted (history : List (Effect Key)) : Effect Key → Prop
  | .sent agent request =>
    (∀ earlier, .failed agent earlier ∉ history) ∧
      MayReach unix config crypto history agent request
  | .answered _ request answeredRequest _ => answeredRequest = request
  | .failed _ _ => True
  | .enumerated (.external agent) blob =>
    ∃ response identities,
      .answered agent [requestIdentities] [requestIdentities] response ∈
        history ∧
      parseIdentitiesResponse response = some identities ∧
      ∃ identity ∈ identities, identity.blob = blob
  | .enumerated (.stored key epoch) blob =>
    ∃ identity ∈ store epoch, identity.key = key ∧ identity.blob = blob
  | .signed key blob loadedAt current =>
    allows config (crypto.fingerprint blob) = true ∧ .enumerated
      (.stored key loadedAt) blob ∈ history ∧ loadedAt = current
  | .replied request response => MayReply config crypto history request response

/-- Every effect is permitted by those before it. -/
def Lawful : List (Effect Key) → Prop
  | [] => True
  | effect :: history =>
    Permitted unix config crypto store history effect ∧ Lawful history

/-- A cached identity is allowed, and was enumerated from its provider. -/
structure Known (log : List (Effect Key)) (record : AgentIdentityRecord Key) :
    Prop where
  fingerprint : record.fingerprint = crypto.fingerprint record.blob
  allowed : allows config record.fingerprint = true
  enumerated : .enumerated record.provider record.blob ∈ log

/-- A healthy agent has answered everything that was sent to it, and has never
failed. -/
def Clear (log : List (Effect Key)) (agent : Nat)
    (upstream : ExternalUpstream) : Prop :=
  upstream.healthy = true →
    upstream.outstanding = [] ∧ ∀ request, .failed agent request ∉ log

structure Sound (channel : Channel Key) : Prop where
  lawful : Lawful unix config crypto store channel.log
  known : ∀ record ∈ channel.identities, Known config crypto channel.log record
  clear : ∀ agent upstream, channel.external[agent]? = some upstream →
    Clear channel.log agent upstream

end

variable {unix : Bool} {config : SshAgentForwardingConfig}
  {crypto : Crypto Key} {store : KeyStore Key}

variable {log : List (Effect Key)}

theorem Known.append {record : AgentIdentityRecord Key}
    (h : Known config crypto log record) (effects : List (Effect Key)) :
    Known config crypto (effects ++ log) record :=
  ⟨h.fingerprint, h.allowed, mem_append_right effects h.enumerated⟩

variable {agent : Nat} {upstream : ExternalUpstream}

/-- Effects of other kinds, or about other agents, leave an agent clear. -/
theorem Clear.append (h : Clear log agent upstream)
    {effects : List (Effect Key)}
    (heffects : ∀ request, .failed agent request ∉ effects) :
    Clear (effects ++ log) agent upstream := by
  intro hhealthy
  obtain ⟨houtstanding, hfailed⟩ := h hhealthy
  refine ⟨houtstanding, fun request hmem => ?_⟩
  rcases mem_append.mp hmem with hnew | hold
  · exact heffects request hnew
  · exact hfailed request hold

theorem clear_of_unhealthy (log : List (Effect Key)) (agent : Nat)
    (h : upstream.healthy = false) : Clear log agent upstream := by
  intro hhealthy
  rw [h] at hhealthy
  exact absurd hhealthy Bool.false_ne_true

/-- Enumerating is permitted after whatever follows the answer. -/
theorem lawful_enumerated {effects : List (Effect Key)}
    (h : Lawful unix config crypto store log)
    (heffects : ∀ effect ∈ effects, ∀ history, log ⊆ history →
      Permitted unix config crypto store history effect) :
    Lawful unix config crypto store (effects ++ log) := by
  induction effects with
  | nil => exact h
  | cons effect rest ih =>
    rw [forall_mem_cons] at heffects
    exact ⟨heffects.1 _ fun _ hmem => mem_append_right rest hmem,
      ih heffects.2⟩

/-- An exchange with a clear agent is with this request, and with no other. -/
theorem exchange_of_clear (hclear : Clear log agent upstream)
    (hhealthy : upstream.healthy = true) (request : Bytes) (outcome : Outcome) :
    (∃ response, exchange agent request upstream outcome =
          ((upstream, some response, [.answered agent request request response,
              .sent agent request]) :
            ExternalUpstream × Option Bytes × List (Effect Key))) ∨
      ∃ next, exchange agent request upstream outcome =
          ((next, none, [.failed agent request, .sent agent request]) :
            ExternalUpstream × Option Bytes × List (Effect Key)) := by
  obtain ⟨houtstanding, -⟩ := hclear hhealthy
  cases outcome with
  | answered response =>
    refine .inl ⟨response, ?_⟩
    simp [exchange, houtstanding]
    rw [← houtstanding]
  | failed => exact .inr ⟨_, rfl⟩

variable {request : Bytes}

theorem lawful_sent (h : Lawful unix config crypto store log)
    (hclear : Clear log agent upstream) (hhealthy : upstream.healthy = true)
    (hreach : MayReach unix config crypto log agent request) :
    Lawful unix config crypto store (.sent agent request :: log) :=
  ⟨⟨(hclear hhealthy).2, hreach⟩, h⟩

variable {channel : Channel Key}

/-- What a request may come to after it has been passed on. -/
theorem proxyFrame_sound {index : Nat}
    (h : Sound unix config crypto store channel)
    (hindex : channel.external[index]? = some upstream)
    (hhealthy : upstream.healthy = true)
    (hreach : MayReach unix config crypto channel.log index request)
    (outcome : Outcome) :
    Sound unix config crypto store
        (proxyFrame channel index upstream request outcome).1 ∧
      ((proxyFrame channel index upstream request outcome).2 = none ∨
        ∃ payload,
          (proxyFrame channel index upstream request outcome).2 =
            some (frame payload) ∧
          (proxyFrame channel index upstream request outcome).1.log.head? =
            some (.answered index request request payload)) := by
  have hclear := h.clear index upstream hindex
  have hsent := lawful_sent h.lawful hclear hhealthy hreach
  have hother : ∀ (next : ExternalUpstream) (effects : List (Effect Key)),
      (∀ agent, agent ≠ index → ∀ earlier, .failed agent earlier ∉ effects) →
      Clear (effects ++ channel.log) index next →
      ∀ agent up, (channel.external.set index next)[agent]? = some up →
        Clear (effects ++ channel.log) agent up := by
    intro next effects hnone hnext agent up hup
    rw [getElem?_set] at hup
    split at hup
    · rename_i heq
      split at hup
      · rw [← heq, ← some.inj hup]
        exact hnext
      · exact absurd hup.symm (some_ne_none up)
    · rename_i hne
      exact (h.clear agent up hup).append (hnone agent (Ne.symm hne))
  rcases exchange_of_clear hclear hhealthy request outcome with
    ⟨response, hexchange⟩ | ⟨next, hexchange⟩
  · rw [proxyFrame, hexchange]
    refine ⟨⟨⟨rfl, hsent⟩, fun record hrecord => ?_, ?_⟩,
      .inr ⟨response, rfl, rfl⟩⟩
    · exact (h.known record hrecord).append
        [.answered index request request response, .sent index request]
    · refine hother upstream
        [.answered index request request response, .sent index request]
        (fun _ _ _ hmem => by simp at hmem) ?_
      exact hclear.append fun _ hmem => by simp at hmem
  · rw [proxyFrame, hexchange]
    refine ⟨⟨⟨trivial, hsent⟩, fun record hrecord => ?_, ?_⟩, .inl rfl⟩
    · exact (h.known record hrecord).append
        [.failed index request, .sent index request]
    · refine hother _ [.failed index request, .sent index request]
        (fun agent hne _ hmem => ?_) (clear_of_unhealthy _ _ rfl)
      simp only [mem_cons, Effect.failed.injEq, reduceCtorEq,
        not_mem_nil, or_false] at hmem
      exact hne hmem.1

/-- What a clear agent that is asked for its identities comes to. -/
theorem requestExternalIdentities_of_clear
    (h : Lawful unix config crypto store log)
    (hclear : Clear log agent upstream) (hhealthy : upstream.healthy = true)
    (outcome : Outcome) :
    (∃ response identities, parseIdentitiesResponse response = some identities
        ∧ requestExternalIdentities agent upstream outcome =
          ((upstream, some identities,
            [.answered agent [requestIdentities] [requestIdentities] response,
              .sent agent [requestIdentities]]) :
            ExternalUpstream × Option (List ExternalIdentity) ×
              List (Effect Key))) ∨
      ∃ next effects, requestExternalIdentities agent upstream outcome =
          ((next, none, effects) : ExternalUpstream ×
            Option (List ExternalIdentity) × List (Effect Key)) ∧
        Lawful unix config crypto store (effects ++ log) ∧
        ∀ other, other ≠ agent → ∀ request,
          .failed other request ∉ effects := by
  have hsent := lawful_sent h hclear hhealthy (.inl rfl)
  rcases exchange_of_clear hclear hhealthy [requestIdentities] outcome with
    ⟨response, hexchange⟩ | ⟨next, hexchange⟩
  · cases hparse : parseIdentitiesResponse response with
    | none =>
      refine .inr ⟨upstream, .failed agent [requestIdentities] ::
        [.answered agent [requestIdentities] [requestIdentities] response,
          .sent agent [requestIdentities]], ?_, ⟨trivial, rfl, hsent⟩,
        fun other hne request hmem => ?_⟩
      · simp only [requestExternalIdentities, hexchange, hparse]
      · simp only [mem_cons, Effect.failed.injEq, reduceCtorEq,
          not_mem_nil, or_false] at hmem
        exact hne hmem.1
    | some identities =>
      refine .inl ⟨response, identities, hparse, ?_⟩
      simp only [requestExternalIdentities, hexchange, hparse]
  · refine .inr ⟨next, [.failed agent [requestIdentities],
      .sent agent [requestIdentities]], ?_, ⟨trivial, hsent⟩,
      fun other hne request hmem => ?_⟩
    · simp only [requestExternalIdentities, hexchange]
    · simp only [mem_cons, Effect.failed.injEq, reduceCtorEq,
        not_mem_nil, or_false] at hmem
      exact hne hmem.1

/-- What asking the agents from a position on comes to. -/
structure Asked (unix : Bool) (config : SshAgentForwardingConfig)
    (crypto : Crypto Key) (store : KeyStore Key) (log : List (Effect Key))
    (index : Nat)
    (result : List ExternalUpstream × List (Nat × List ExternalIdentity) ×
      List (Effect Key)) : Prop where
  lawful : Lawful unix config crypto store (result.2.2 ++ log)
  clear : ∀ i upstream, result.1[i]? = some upstream →
    Clear (result.2.2 ++ log) (index + i) upstream
  later : ∀ agent request, .failed agent request ∈ result.2.2 → index ≤ agent
  enumerated : ∀ response ∈ result.2.1, ∀ identity ∈ response.2,
    .enumerated (.external response.1) identity.blob ∈ result.2.2 ++ log

theorem Asked.cons {log effects : List (Effect Key)} {index : Nat}
    {first : ExternalUpstream}
    {others : List ExternalUpstream × List (Nat × List ExternalIdentity) ×
      List (Effect Key)}
    (h : Asked unix config crypto store (effects ++ log) (index + 1) others)
    (hfirst : Clear (effects ++ log) index first)
    (hlater : ∀ agent request, .failed agent request ∈ effects → index ≤ agent)
    (responses : List (Nat × List ExternalIdentity))
    (hresponses : ∀ response ∈ responses, response ∈ others.2.1 ∨
      ∀ identity ∈ response.2,
        .enumerated (.external response.1) identity.blob ∈ effects ++ log) :
    Asked unix config crypto store log index
      (first :: others.1, responses, others.2.2 ++ effects) := by
  have hlog : others.2.2 ++ effects ++ log = others.2.2 ++ (effects ++ log) :=
    append_assoc _ _ _
  refine ⟨?_, fun i up hup => ?_, fun agent request hmem => ?_,
    fun response hmem identity hidentity => ?_⟩
  · rw [hlog]
    exact h.lawful
  · rw [hlog]
    cases i with
    | zero =>
      rw [getElem?_cons_zero, some.injEq] at hup
      rw [← hup]
      refine hfirst.append fun request hmem => ?_
      have hle := h.later _ _ hmem
      omega
    | succ i =>
      have hrest := h.clear i up hup
      rw [show index + (i + 1) = index + 1 + i by omega]
      exact hrest
  · rcases mem_append.mp hmem with hothers | hown
    · have hle := h.later agent request hothers
      omega
    · exact hlater agent request hown
  · rw [hlog]
    rcases hresponses response hmem with hothers | hown
    · exact h.enumerated response hothers identity hidentity
    · exact mem_append_right _ (hown identity hidentity)

theorem enumerateExternal_asked (outcomes : Nat → Outcome) (index : Nat)
    (upstreams : List ExternalUpstream)
    (h : Lawful unix config crypto store log)
    (hclear : ∀ i upstream, upstreams[i]? = some upstream →
      Clear log (index + i) upstream) :
    Asked unix config crypto store log index
      (enumerateExternal outcomes index upstreams) := by
  induction upstreams generalizing index log with
  | nil =>
    exact ⟨h, fun _ _ hnone => absurd hnone.symm (some_ne_none _),
      fun _ _ hmem => absurd hmem not_mem_nil,
      fun _ hmem => absurd hmem not_mem_nil⟩
  | cons upstream rest ih =>
    have hfirst : Clear log index upstream := hclear 0 upstream rfl
    -- the agents behind this one, after what this one has done
    have hrest : ∀ effects : List (Effect Key), Lawful unix config crypto store
        (effects ++ log) → (∀ other, other ≠ index → ∀ request,
          .failed other request ∉ effects) →
        Asked unix config crypto store (effects ++ log) (index + 1)
          (enumerateExternal outcomes (index + 1) rest) := by
      intro effects hlawful hnone
      refine ih (index + 1) hlawful fun i up hup => ?_
      have hbefore := hclear (i + 1) up hup
      rw [show index + 1 + i = index + (i + 1) by omega]
      exact hbefore.append (hnone _ (by omega))
    by_cases hhealthy : upstream.healthy = true
    · rcases requestExternalIdentities_of_clear h hfirst hhealthy
        (outcomes index) with
          ⟨response, identities, hparse, hrequest⟩ |
            ⟨next, effects, hrequest, hlawful, hnone⟩
      · let enumerated : List (Effect Key) := identities.map
          fun identity => .enumerated (.external index) identity.blob
        let answered : List (Effect Key) :=
          [.answered index [requestIdentities] [requestIdentities] response,
            .sent index [requestIdentities]]
        have hanswered : Lawful unix config crypto store (answered ++ log) :=
          ⟨rfl, lawful_sent h hfirst hhealthy (.inl rfl)⟩
        have hlawful : Lawful unix config crypto store
            ((enumerated ++ answered) ++ log) := by
          rw [append_assoc]
          refine lawful_enumerated hanswered fun effect heffect history hsub =>
            ?_
          obtain ⟨identity, hidentity, rfl⟩ := mem_map.mp heffect
          exact ⟨response, identities, hsub mem_cons_self, hparse,
            identity, hidentity, rfl⟩
        have hnone : ∀ other request,
            .failed other request ∉ enumerated ++ answered := by
          intro other request hmem
          simp [enumerated, answered] at hmem
        simp only [enumerateExternal, hhealthy, Bool.not_true,
          Bool.false_eq_true, ↓reduceIte, hrequest]
        refine (hrest (enumerated ++ answered) hlawful
          fun other _ request => hnone other request).cons
          (hfirst.append (hnone index))
          (fun agent request hmem => absurd hmem (hnone agent request)) _
          fun asked hasked => ?_
        rcases mem_cons.mp hasked with rfl | hothers
        · refine .inr fun identity hidentity => ?_
          rw [append_assoc]
          exact mem_append_left _ (mem_map_of_mem hidentity)
        · exact .inl hothers
      · simp only [enumerateExternal, hhealthy, Bool.not_true,
          Bool.false_eq_true, ↓reduceIte, hrequest]
        refine (hrest effects hlawful hnone).cons
          (clear_of_unhealthy _ _ rfl) (fun agent request hmem => ?_) _
          fun _ hmem => .inl hmem
        by_cases heq : agent = index
        · omega
        · exact absurd hmem (hnone agent heq request)
    · simp only [enumerateExternal, Bool.eq_false_iff.mpr hhealthy,
        Bool.not_false, ↓reduceIte]
      have hown : Clear ([] ++ log) index upstream := hfirst
      have hnothing := (hrest [] h fun _ _ _ => not_mem_nil).cons hown
        (fun _ _ hmem => absurd hmem not_mem_nil) _
        fun _ hmem => .inl hmem
      rw [append_nil] at hnothing
      exact hnothing

variable {collector : IdentityCollector Key}

/-- An identity is collected only if the policy allows it. -/
theorem mem_pushAllowed {blob : Bytes}
    {comment : Str} {provider : IdentityProvider Key}
    {record : AgentIdentityRecord Key}
    (h : record ∈ (pushAllowed config crypto collector blob comment
      provider).items) :
    record ∈ collector.items ∨
      (allows config (crypto.fingerprint blob) = true ∧
        record = ⟨blob, comment, crypto.fingerprint blob, provider⟩) := by
  rw [pushAllowed] at h
  split at h
  · rename_i hallowed
    simp only [IdentityCollector.push] at h
    split at h
    · exact .inl h
    · split at h
      · exact .inl h
      · split at h
        · exact .inl h
        · rcases mem_append.mp h with hold | hnew
          · exact .inl hold
          · exact .inr ⟨hallowed, mem_singleton.mp hnew⟩
  · exact .inl h

theorem known_foldl {α : Type} (blob : α → Bytes) (comment : α → Str)
    (provider : α → IdentityProvider Key) (items : List α)
    (henumerated : ∀ a ∈ items, .enumerated (provider a) (blob a) ∈ log)
    (h : ∀ record ∈ collector.items, Known config crypto log record) :
    ∀ record ∈ (items.foldl (fun collector a => pushAllowed config crypto
      collector (blob a) (comment a) (provider a)) collector).items,
        Known config crypto log record := by
  induction items generalizing collector with
  | nil => exact h
  | cons a rest ih =>
    rw [forall_mem_cons] at henumerated
    refine ih henumerated.2 fun record hrecord => ?_
    rcases mem_pushAllowed hrecord with hold | ⟨hallowed, rfl⟩
    · exact h record hold
    · exact ⟨rfl, hallowed, henumerated.1⟩

theorem known_collectExternal
    (responses : List (Nat × List ExternalIdentity))
    (henumerated : ∀ response ∈ responses, ∀ identity ∈ response.2,
      .enumerated (.external response.1) identity.blob ∈ log)
    (h : ∀ record ∈ collector.items, Known config crypto log record) :
    ∀ record ∈ (collectExternal config crypto collector responses).items,
      Known config crypto log record := by
  induction responses generalizing collector with
  | nil => exact h
  | cons response rest ih =>
    rw [forall_mem_cons] at henumerated
    exact ih henumerated.2 (known_foldl _ _ _ _ henumerated.1 h)

theorem enumerateIdentities_sound
    (h : Sound unix config crypto store channel) (moment : Moment store) :
    Sound unix config crypto store
        (enumerateIdentities config crypto channel moment).1 ∧
      ∀ records, (enumerateIdentities config crypto channel moment).2 = some
        records → ∀ record ∈ records, Known config crypto
          (enumerateIdentities config crypto channel moment).1.log record := by
  have hstart : ∀ i upstream, channel.external[i]? = some upstream →
      Clear channel.log (0 + i) upstream := by
    intro i upstream hupstream
    rw [Nat.zero_add]
    exact h.clear i upstream hupstream
  have hasked := enumerateExternal_asked moment.identities 0 channel.external
    h.lawful hstart
  have hnew : ∀ record ∈ (.new : IdentityCollector Key).items,
      Known config crypto ((enumerateExternal moment.identities 0
        channel.external).2.2 ++ channel.log) record :=
    fun _ hmem => absurd hmem not_mem_nil
  have hexternal := known_collectExternal _ hasked.enumerated hnew
  rw [enumerateIdentities]
  generalize enumerateExternal moment.identities 0 channel.external = asked
    at hasked hexternal
  have hsound : Sound unix config crypto store { channel with
      external := asked.1
      log := asked.2.2 ++ channel.log } := by
    refine ⟨hasked.lawful, fun record hrecord =>
      (h.known record hrecord).append _, fun agent upstream hupstream => ?_⟩
    have hclear := hasked.clear agent upstream hupstream
    rw [Nat.zero_add] at hclear
    exact hclear
  split
  · exact ⟨hsound, fun records hrecords => some.inj hrecords ▸ hexternal⟩
  · split
    · exact ⟨hsound, fun _ hnone => absurd hnone (some_ne_none _).symm⟩
    · rename_i snapshot hsnapshot
      have hlawful : Lawful unix config crypto store
          (storedEffects snapshot ++ (asked.2.2 ++ channel.log)) := by
        refine lawful_enumerated hasked.lawful fun effect heffect history _ => ?_
        obtain ⟨identity, hidentity, rfl⟩ := mem_map.mp heffect
        exact ⟨identity, snapshot.loaded identity hidentity, rfl, rfl⟩
      have hnone : ∀ agent request, Effect.failed agent request ∉
          storedEffects snapshot := by
        intro agent request hmem
        simp [storedEffects] at hmem
      refine ⟨⟨hlawful, fun record hrecord =>
        (hsound.known record hrecord).append _,
        fun agent upstream hupstream =>
          (hsound.clear agent upstream hupstream).append (hnone agent)⟩,
        fun records hrecords => some.inj hrecords ▸ ?_⟩
      refine known_foldl _ _ _ _ (fun identity hidentity => ?_)
        fun record hrecord => (hexternal record hrecord).append _
      exact mem_append_left _ (mem_map_of_mem hidentity)

theorem mayReply_failure (history : List (Effect Key)) (request : Bytes) :
    MayReply config crypto history request failureFrame := by
  rw [MayReply]
  split
  · exact .inl rfl
  · exact .inl rfl

theorem mayReply_extensionFailure (history : List (Effect Key))
    (h : request ≠ [requestIdentities]) :
    MayReply config crypto history request extensionFailureFrame := by
  rw [MayReply, if_neg h]
  exact .inr (.inl rfl)

theorem mayReply_proxied {history : List (Effect Key)}
    {reply : Option Bytes} (h : request ≠ [requestIdentities])
    (hreply : reply = none ∨ ∃ payload, reply = some (frame payload) ∧
      history.head? = some (.answered agent request request payload)) :
    MayReply config crypto history request (reply.getD failureFrame) := by
  rcases hreply with rfl | ⟨payload, rfl, hhead⟩
  · exact mayReply_failure history request
  · rw [MayReply, if_neg h]
    exact .inr (.inr (.inl ⟨agent, payload, rfl, hhead⟩))

/-- Loading the identities leaves a sound channel, whether it succeeds or
not. -/
theorem loadIdentities_sound
    (h : Sound unix config crypto store channel) (moment : Moment store) :
    Sound unix config crypto store
        (loadIdentities config crypto channel moment).2 ∧
      ∀ loaded, (loadIdentities config crypto channel moment).1 = some loaded →
        Sound unix config crypto store loaded := by
  rw [loadIdentities]
  split
  · exact ⟨h, fun loaded hloaded => some.inj hloaded ▸ h⟩
  · obtain ⟨hsound, hrecords⟩ := enumerateIdentities_sound h moment
    split
    · rename_i next hresult
      rw [hresult] at hsound
      exact ⟨hsound, fun _ hnone => absurd hnone (some_ne_none _).symm⟩
    · rename_i next records hresult
      rw [hresult] at hsound hrecords
      have hloaded : Sound unix config crypto store { next with
          identities := records
          identitiesLoaded := true } :=
        ⟨hsound.lawful, hrecords records rfl, hsound.clear⟩
      exact ⟨hloaded, fun loaded hsome => some.inj hsome ▸ hloaded⟩

/-- A stored key signs at its own epoch only. -/
theorem signWithStoredKeyAtEpoch_cases (crypto : Crypto Key) (key : Key)
    (epoch current : Nat) (sign : SignRequest) :
    ((signWithStoredKeyAtEpoch crypto key epoch sign current).2 = [] ∧
        (signWithStoredKeyAtEpoch crypto key epoch sign current).1.getD
          failureFrame = failureFrame) ∨
      (current = epoch ∧ ∃ signature,
        signWithStoredKeyAtEpoch crypto key epoch sign current =
          (some (frame (signResponse :: encodeString signature)),
            [.signed key sign.blob epoch current])) := by
  rw [signWithStoredKeyAtEpoch]
  split
  · exact .inl ⟨rfl, rfl⟩
  · rename_i hepoch
    split
    · exact .inl ⟨rfl, rfl⟩
    · split
      · exact .inl ⟨rfl, rfl⟩
      · rename_i signature _
        exact .inr ⟨not_not.mp hepoch, signature, rfl⟩

/-- A request to sign reaches the provider of an allowed identity only. -/
theorem handleSign_sound
    {sign : SignRequest} (h : Sound unix config crypto store channel)
    (moment : Moment store) (hhead : request.head? = some signRequest)
    (hparse : parseSignRequest request = some sign) :
    Sound unix config crypto store
        (handleSign config crypto channel moment request sign).1 ∧
      MayReply config crypto
        (handleSign config crypto channel moment request sign).1.log request
        ((handleSign config crypto channel moment request sign).2.getD
          failureFrame) := by
  have hne : request ≠ [requestIdentities] := by
    rintro rfl
    exact absurd (some.inj hhead) (by decide)
  have hrefused : MayReply config crypto channel.log request failureFrame :=
    mayReply_failure channel.log request
  simp only [handleSign]
  split
  · exact ⟨h, hrefused⟩
  · rename_i identity hfind
    have hblob : identity.blob = sign.blob := by
      simpa using find?_some hfind
    have hknown := h.known identity (mem_of_find?_eq_some hfind)
    split
    · exact ⟨h, hrefused⟩
    · rename_i hguard
      simp only [Bool.or_eq_true, decide_eq_true_eq, Bool.not_eq_true', not_or,
        not_not, Bool.not_eq_false] at hguard
      split
      · exact ⟨h, hrefused⟩
      · split
        · rename_i index hprovider
          split
          · exact ⟨h, hrefused⟩
          · rename_i upstream hindex
            split
            · exact ⟨h, hrefused⟩
            · rename_i hhealthy
              have hreach : MayReach unix config crypto channel.log index
                  request := by
                refine .inr (.inl ⟨sign, hhead, hparse, hguard.2, ?_⟩)
                rw [← hblob, ← hprovider]
                exact hknown.enumerated
              obtain ⟨hsound, hreply⟩ := proxyFrame_sound h hindex
                (by simpa using hhealthy) hreach moment.proxied
              exact ⟨hsound, mayReply_proxied hne hreply⟩
        · rename_i key epoch hprovider
          rcases signWithStoredKeyAtEpoch_cases crypto key epoch
            moment.signEpoch sign with ⟨hnothing, hreply⟩ |
              ⟨hepoch, signature, hsigned⟩
          · rw [hnothing, hreply]
            exact ⟨h, hrefused⟩
          · rw [hsigned]
            refine ⟨⟨⟨⟨hguard.2, ?_, hepoch.symm⟩, h.lawful⟩,
              fun record hrecord => ?_, fun agent upstream hupstream => ?_⟩, ?_⟩
            · rw [← hblob, ← hprovider]
              exact hknown.enumerated
            · exact (h.known record hrecord).append
                [.signed key sign.blob epoch moment.signEpoch]
            · have hnone : ∀ request, Effect.failed agent request ∉
                  [.signed key sign.blob epoch moment.signEpoch] :=
                fun _ hmem => by simp at hmem
              exact (h.clear agent upstream hupstream).append hnone
            · rw [MayReply, if_neg hne]
              exact .inr (.inr (.inr ⟨key, sign.blob, epoch,
                moment.signEpoch, signature, rfl, rfl⟩))

/-- An extension reaches the only agent, if there can be no other identity. -/
theorem handleExtension_sound {name : Bytes}
    (h : Sound unix config crypto store channel) (moment : Moment store)
    (hhead : request.head? = some extension)
    (hparse : parseExtensionRequest request = some name) :
    Sound unix config crypto store
        (handleExtension unix config channel moment request name).1 ∧
      MayReply config crypto
        (handleExtension unix config channel moment request name).1.log request
        ((handleExtension unix config channel moment request name).2.getD
          failureFrame) := by
  have hne : request ≠ [requestIdentities] := by
    rintro rfl
    exact absurd (some.inj hhead) (by decide)
  have hrefused : MayReply config crypto channel.log request
      extensionFailureFrame :=
    mayReply_extensionFailure channel.log hne
  rw [handleExtension]
  split
  · rename_i hguard
    simp only [canProxyExternalExtension, Bool.and_eq_true, Bool.or_eq_true,
      beq_iff_eq, Bool.not_eq_true', Bool.or_eq_false_iff] at hguard
    obtain ⟨hname, ⟨-, hstored, -⟩, hsingle⟩ := hguard
    split
    · exact ⟨h, hrefused⟩
    · rename_i upstream hindex
      split
      · exact ⟨h, hrefused⟩
      · rename_i hhealthy
        have hreach : MayReach unix config crypto channel.log 0 request :=
          .inr (.inr ⟨name, hhead, hparse, hname, hsingle, hstored⟩)
        obtain ⟨hsound, hreply⟩ := proxyFrame_sound h hindex
          (by simpa using hhealthy) hreach moment.proxied
        exact ⟨hsound, mayReply_proxied hne hreply⟩
  · exact ⟨h, hrefused⟩

/-- The identities that are listed are the enumerated ones. -/
theorem mayReply_identities {records : List (AgentIdentityRecord Key)}
    (h : ∀ record ∈ records, Known config crypto log record) :
    MayReply config crypto log [requestIdentities]
      ((identitiesFrame (records.map fun record =>
        (record.blob, record.comment))).getD failureFrame) := by
  rw [MayReply, if_pos rfl]
  cases hframe : identitiesFrame (records.map fun record =>
      (record.blob, record.comment)) with
  | none => exact .inl rfl
  | some response =>
    refine .inr ⟨_, hframe, fun identity hidentity => ?_⟩
    obtain ⟨record, hrecord, rfl⟩ := mem_map.mp hidentity
    have hknown := h record hrecord
    rw [← hknown.fingerprint]
    exact hknown.allowed

theorem handleRequest_sound (h : Sound unix config crypto store channel)
    (moment : Moment store) (request : Bytes) :
    Sound unix config crypto store
        (handleRequest unix config crypto channel moment request).1 ∧
      MayReply config crypto
        (handleRequest unix config crypto channel moment request).1.log request
        ((handleRequest unix config crypto channel moment request).2.getD
          failureFrame) := by
  have hfailure : ∀ next : Channel Key,
      MayReply config crypto next.log request failureFrame :=
    fun next => mayReply_failure next.log request
  have hloaded := loadIdentities_sound h moment
  rw [handleRequest.eq_def]
  split
  · exact ⟨h, hfailure channel⟩
  · rename_i messageType payload
    split
    · rename_i hidentities
      split
      · exact ⟨h, hfailure channel⟩
      · rename_i hpayload
        obtain ⟨hsound, hrecords⟩ := enumerateIdentities_sound h moment
        split
        · rename_i next hresult
          rw [hresult] at hsound
          exact ⟨hsound, hfailure next⟩
        · rename_i next records hresult
          rw [hresult] at hsound hrecords
          have hknown := hrecords records rfl
          rw [hidentities, not_not.mp hpayload]
          exact ⟨⟨hsound.lawful, hknown, hsound.clear⟩,
            mayReply_identities hknown⟩
    · split
      · rename_i hsign
        split
        · exact ⟨h, hfailure channel⟩
        · rename_i sign hparse
          split
          · rename_i next hresult
            rw [hresult] at hloaded
            exact ⟨hloaded.1, hfailure next⟩
          · rename_i loaded _ hresult
            rw [hresult] at hloaded
            exact handleSign_sound (hloaded.2 loaded rfl) moment
              (congrArg some hsign) hparse
      · split
        · rename_i hextension
          split
          · exact ⟨h, hfailure channel⟩
          · rename_i name hparse
            split
            · rename_i next hresult
              rw [hresult] at hloaded
              exact ⟨hloaded.1, hfailure next⟩
            · rename_i loaded _ hresult
              rw [hresult] at hloaded
              exact handleExtension_sound (hloaded.2 loaded rfl) moment
                (congrArg some hextension) hparse
        · exact ⟨h, hfailure channel⟩

theorem sound_opened (upstreams : Nat) :
    Sound unix config crypto store (.opened upstreams) := by
  refine ⟨trivial, fun _ hmem => absurd hmem not_mem_nil,
    fun agent upstream hupstream _ => ?_⟩
  have hmem := mem_of_getElem? hupstream
  rw [eq_of_mem_replicate hmem]
  exact ⟨rfl, fun _ hfailed => absurd hfailed not_mem_nil⟩

theorem serveFrame_sound {next : Channel Key} {initialEpoch : Nat}
    {received : RemoteFrame store}
    (h : Sound unix config crypto store channel)
    (hstep : serveFrame unix config crypto initialEpoch channel received =
      some next) : Sound unix config crypto store next := by
  obtain ⟨hsound, hreply⟩ := handleRequest_sound h received.moment
    received.request
  rw [serveFrame] at hstep
  split at hstep
  · exact absurd hstep.symm (some_ne_none next)
  · rw [← some.inj hstep]
    have hnone : ∀ (response : Bytes) (agent : Nat) (request : Bytes),
        .failed agent request ∉
          ([.replied received.request response] : List (Effect Key)) :=
      fun _ _ _ hmem => by simp at hmem
    exact ⟨⟨hreply, hsound.lawful⟩,
      fun record hrecord => (hsound.known record hrecord).append [_],
      fun agent upstream hupstream =>
        (hsound.clear agent upstream hupstream).append (hnone _ agent)⟩

/-- One agent, every key allowed, and no stored keys. -/
def sampleConfig : SshAgentForwardingConfig :=
  ⟨true, [.auto], false, .all⟩

def sampleCrypto : Crypto Unit :=
  ⟨fun _ => "SHA256:".toList, fun _ => false, fun _ _ _ => none⟩

def emptyStore : KeyStore Unit := fun _ => []

/-- The agent lists the key `1`, or does not answer. -/
def sampleMoment (answers : Bool) : Moment emptyStore where
  frameEpoch := 0
  identities := fun _ =>
    if answers then .answered [12, 0, 0, 0, 1, 0, 0, 0, 1, 1, 0, 0, 0, 0]
    else .failed
  expectedEpoch := 0
  cached := none
  cachedEpoch := 0
  loaded := none
  loadedEpoch := 0
  checkedEpoch := 0
  permit := true
  proxied := .failed
  signEpoch := 0

/-- The remote side lists the keys, and twice asks for a signature. -/
def sampleFrames : List (RemoteFrame emptyStore) :=
  [⟨[11], sampleMoment true⟩,
    ⟨[13, 0, 0, 0, 1, 1, 0, 0, 0, 0, 0, 0, 0, 0], sampleMoment true⟩,
    ⟨[13, 0, 0, 0, 1, 1, 0, 0, 0, 0, 0, 0, 0, 0], sampleMoment false⟩]

/-- Every identity that a reply lists is allowed, whatever was asked for. -/
def ListsAllowed (config : SshAgentForwardingConfig) (crypto : Crypto Key)
    (log : List (Effect Key)) : Prop :=
  ∀ request payload identities, .replied request (frame payload) ∈ log →
    parseIdentitiesResponse payload = some identities →
    ∀ identity ∈ identities,
      allows config (crypto.fingerprint identity.blob) = true

/-- Only the key `A` is allowed. -/
def listedConfig : SshAgentForwardingConfig :=
  ⟨true, [.auto], false, .allowlist [['A']]⟩

def spelledCrypto : Crypto Unit :=
  ⟨fun blob => blob.map fun byte => Char.ofNat byte.toNat, fun _ => false,
    fun _ _ _ => none⟩

/-- The agent lists the key `A`, and answers a request to sign with a list of
the key `B`. -/
def relayedFrame : RemoteFrame emptyStore :=
  ⟨[13, 0, 0, 0, 1, 65, 0, 0, 0, 0, 0, 0, 0, 0],
    { sampleMoment true with
      identities := fun _ =>
        .answered [12, 0, 0, 0, 1, 0, 0, 0, 1, 65, 0, 0, 0, 0]
      proxied := .answered [12, 0, 0, 0, 1, 0, 0, 0, 1, 66, 0, 0, 0, 0] }⟩

end NiceTerm.Ssh.Agent
