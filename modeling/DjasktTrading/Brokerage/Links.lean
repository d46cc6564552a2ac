import DjasktTrading.Brokerage.Router
import DjasktTrading.Reasoning.Runs
import DjasktTrading.Reasoning.Slots

/-!
# Links — whose session is cached

A session belongs to the link that its login has read.  Logins, logouts and time keep it so; a link
can be deleted under its session.
-/

open Reasoning

namespace DjasktTrading.Brokerage

open BrokerageController

/-! ## 1. Sessions and links -/

/-- Every cached session belongs to a link of its user to its brokerage and names the client of that
link, and a link is listed as it is answered when it is created. -/
structure SessionsCurrent (py : Python) (p : Platform) (w : World) : Prop where
  linked : ∀ userId name cached, w.session? userId name = some cached →
    ∃ link ∈ w.links, link.user = userId ∧ link.brokerage.name = name ∧
      encode (AngelOneAuthStrategy.item link.userBrokerageData "client_id") = .ok cached.clientId
  listed : ∀ user name data id response after,
    createLink py p w user name data id = (⟨201, .link response⟩, after) →
      ∃ responses, listLinks after user = ⟨200, .links responses⟩ ∧ response ∈ responses

/-- The request deletes no link that has a session. -/
def World.KeepsSessions (w : World) : Event → Prop
  | .deleteLink user linkId => ∀ link ∈ w.links, link.user = user.id → link.id = linkId →
      w.session? user.id link.brokerage.name = none
  | _ => True

/-- The links under their foreign key and their unique constraint. -/
structure LinkInv (p : Platform) (w : World) : Prop where
  brokerages : ∀ link ∈ w.links, link.brokerage ∈ p.brokerages
  unique : (w.links.map fun link => (link.user, link.brokerage.id)).Nodup

section

variable {py : Python} {p : Platform} {w w' : World} {e : Event} {user : User} {name : String}
  {brokerage : Brokerage} {link : UserBrokerageLink}

theorem link?_eq_some (h : w.link? user.id brokerage = some link) :
    link ∈ w.links ∧ link.user = user.id ∧ link.brokerage.id = brokerage.id := by
  have hfound := List.find?_some h
  simp only [Bool.decide_and, Bool.and_eq_true, decide_eq_true_eq] at hfound
  exact ⟨List.mem_of_find?_eq_some h, hfound⟩

theorem link?_eq_none (h : w.link? user.id brokerage = none) (hlink : link ∈ w.links)
    (huser : link.user = user.id) : link.brokerage.id ≠ brokerage.id := by
  intro hid
  have hmissed := List.find?_eq_none.mp h link hlink
  simp [huser, hid] at hmissed

namespace LinkInv

theorem initial (p : Platform) : LinkInv p .initial where
  brokerages link hlink := by cases hlink
  unique := List.nodup_nil

/-- No two links of one user are to brokerages of one name. -/
theorem eq_of_name (h : LinkInv p w) {link' : UserBrokerageLink} (hlink : link ∈ w.links)
    (hlink' : link' ∈ w.links) (huser : link.user = link'.user)
    (hname : link.brokerage.name = link'.brokerage.name) : link = link' := by
  have hbrokerage := p.eq_of_name (h.brokerages link hlink) (h.brokerages link' hlink') hname
  exact List.inj_on_of_nodup_map h.unique hlink hlink' (by rw [huser, hbrokerage])

theorem of_links (h : LinkInv p w) (hlinks : w'.links.Sublist w.links) : LinkInv p w' where
  brokerages link hlink := h.brokerages link (hlinks.subset hlink)
  unique := h.unique.sublist (hlinks.map _)

theorem step (h : LinkInv p w) (hstep : Brokerage.step py p w e = some w') : LinkInv p w' := by
  cases e with
  | createLink user name data id =>
      obtain rfl := Option.some.inj hstep
      rcases createLink_cases py p w user name data id with
        ⟨hsame, -⟩ | ⟨brokerage, hactive, hnone, hcreated⟩
      · rw [hsame]
        exact h
      · rw [hcreated]
        constructor
        · intro link hlink
          rcases List.mem_append.mp hlink with hlink | hlink
          · exact h.brokerages link hlink
          · rw [List.mem_singleton.mp hlink]
            exact (Platform.active?_eq_some hactive).1
        · refine nodup_map_append_singleton h.unique fun link hlink heq => ?_
          -- the user had no link to the brokerage
          obtain ⟨huser, hid⟩ := Prod.mk.inj heq
          exact link?_eq_none hnone hlink huser hid
  | listLinks user =>
      obtain rfl := Option.some.inj hstep
      exact h
  | deleteLink user linkId =>
      obtain rfl := Option.some.inj hstep
      rw [deleteLink_eq]
      exact h.of_links (List.filter_sublist ..)
  | brokerLogin broker user name credentials =>
      obtain rfl := Option.some.inj hstep
      exact h.of_links (by rw [(brokerLogin_cases broker credentials).1])
  | brokerLogout broker user name =>
      obtain rfl := Option.some.inj hstep
      rcases brokerLogout_cases (w := w) broker with hsame | hcleared
      · rw [hsame]
        exact h
      · rw [hcleared]
        exact h.of_links (List.Sublist.refl _)
  | wait microseconds =>
      obtain rfl := Option.some.inj hstep
      exact h.of_links (List.Sublist.refl _)

end LinkInv

/-- Every cached session belongs to a link. -/
def Linked (w : World) : Prop :=
  ∀ userId name cached, w.session? userId name = some cached →
    ∃ link ∈ w.links, link.user = userId ∧ link.brokerage.name = name ∧
      encode (AngelOneAuthStrategy.item link.userBrokerageData "client_id") = .ok cached.clientId

/-- Where every session has its link, a new link has no session. -/
theorem Linked.sessionsCurrent (hinv : LinkInv p w) (h : Linked w) : SessionsCurrent py p w where
  linked := h
  listed user name data id response after hcreate := by
    rcases createLink_cases py p w user name data id with
      ⟨-, hrefused⟩ | ⟨brokerage, hactive, hnone, hcreated⟩
    · rw [hcreate] at hrefused
      exact absurd rfl (hrefused response)
    · rw [hcreated] at hcreate
      obtain ⟨hresponse, rfl⟩ := Prod.mk.inj hcreate
      have hnew : w.session? user.id brokerage.name = none := by
        cases hsession : w.session? user.id brokerage.name with
        | none => rfl
        | some cached =>
            -- its link would be to the same brokerage
            obtain ⟨link, hlink, huser, hname, -⟩ := h user.id brokerage.name cached hsession
            have hbrokerage := p.eq_of_name (hinv.brokerages link hlink)
              (Platform.active?_eq_some hactive).1 hname
            exact absurd (congrArg Brokerage.id hbrokerage) (link?_eq_none hnone hlink huser)
      refine ⟨_, rfl, List.mem_map.mpr ⟨⟨id, user.id, brokerage, data⟩, ?_, ?_⟩⟩
      · simp
      · cases hresponse
        have hdisconnected : (w.session? user.id brokerage.name).isSome = false := by rw [hnew]; rfl
        exact congrArg (LinkResponse.mk id brokerage.name data) hdisconnected

/-- A step to a state with sessions that were there before, and all of its links. -/
theorem Linked.of_sessions (h : Linked w) (hlinks : w.links ⊆ w'.links)
    (hsessions : ∀ userId name cached, w'.session? userId name = some cached →
      w.session? userId name = some cached) : Linked w' := by
  intro userId name cached hcached
  obtain ⟨link, hlink, hrest⟩ := h userId name cached (hsessions userId name cached hcached)
  exact ⟨link, hlinks hlink, hrest⟩

/-- Behind a login stands its own session, or what stood there before. -/
theorem session?_of_set {sessions : Sessions} {now ends : ℕ} {userId userId' : UserId}
    {name' : String} {cached cached' : CachedSession}
    (h : BrokerSessionCache.get (sessions.set (sessionKey userId name) cached ends) now userId' name' =
      some cached') :
    (userId' = userId ∧ name' = name ∧ cached' = cached) ∨
      BrokerSessionCache.get sessions now userId' name' = some cached' := by
  unfold BrokerSessionCache.get at h ⊢
  by_cases hkey : sessionKey userId' name' = sessionKey userId name
  · obtain ⟨rfl, rfl⟩ := sessionKey_inj.mp hkey
    exact .inl ⟨rfl, rfl, Expiring.get_set_self h⟩
  · rw [Expiring.get_set_of_ne hkey] at h
    exact .inr h

theorem session?_of_delete {sessions : Sessions} {now : ℕ} {userId userId' : UserId}
    {name' : String} {cached : CachedSession}
    (h : BrokerSessionCache.get (sessions.delete (sessionKey userId name)) now userId' name' =
      some cached) : BrokerSessionCache.get sessions now userId' name' = some cached := by
  unfold BrokerSessionCache.get at h ⊢
  by_cases hkey : sessionKey userId' name' = sessionKey userId name
  · rw [hkey, Expiring.get_delete_self] at h
    cases h
  · rwa [Expiring.get_delete_of_ne hkey] at h

/-- A step keeps the links of the sessions exactly if it deletes none that has one. -/
theorem linked_step_iff (hinv : LinkInv p w) (h : Linked w) (hstep : step py p w e = some w') :
    Linked w' ↔ w.KeepsSessions e := by
  cases e with
  | createLink user name data id =>
      obtain rfl := Option.some.inj hstep
      refine iff_of_true ?_ trivial
      rcases createLink_cases py p w user name data id with
        ⟨hsame, -⟩ | ⟨brokerage, hactive, hnone, hcreated⟩
      · rw [hsame]
        exact h
      · rw [hcreated]
        exact h.of_sessions (List.subset_append_left _ _) fun _ _ _ hcached => hcached
  | listLinks user =>
      obtain rfl := Option.some.inj hstep
      exact iff_of_true h trivial
  | deleteLink user linkId =>
      obtain rfl := Option.some.inj hstep
      rw [deleteLink_eq]
      constructor
      · intro hafter link hlink huser hid
        cases hsession : w.session? user.id link.brokerage.name with
        | none => rfl
        | some cached =>
            -- no other link could be the session's
            obtain ⟨link', hlink', huser', hname, -⟩ := hafter user.id _ cached hsession
            obtain ⟨hmem, hkept⟩ := List.mem_filter.mp hlink'
            obtain rfl := hinv.eq_of_name hmem hlink (huser'.trans huser.symm) hname
            simp [huser, hid] at hkept
      · intro hkeeps userId name cached hcached
        obtain ⟨link, hlink, huser, hname, hclient⟩ := h userId name cached hcached
        refine ⟨link, List.mem_filter.mpr ⟨hlink, ?_⟩, huser, hname, hclient⟩
        simp only [decide_eq_true_eq]
        rintro ⟨huser', hid⟩
        have hnone := hkeeps link hlink huser' hid
        rw [← huser', huser, hname] at hnone
        change w.session? userId name = some cached at hcached
        rw [hnone] at hcached
        cases hcached
  | brokerLogin broker user name credentials =>
      obtain rfl := Option.some.inj hstep
      refine iff_of_true ?_ trivial
      obtain ⟨hlinks, hnow, hsame | ⟨brokerage, link, cached, ends, hactive, hlink, hclient, hset⟩⟩ :=
        @brokerLogin_cases py p w user name broker credentials
      · refine h.of_sessions (by rw [hlinks]; exact List.Subset.refl _)
          fun userId name' cached hcached => ?_
        rwa [World.session?, hsame, hnow] at hcached
      · intro userId name' cached' hcached
        rw [World.session?, hset, hnow] at hcached
        rcases session?_of_set hcached with ⟨rfl, rfl, rfl⟩ | hcached
        · -- the session of the link that the login has read
          obtain ⟨hmem, huser, hid⟩ := link?_eq_some hlink
          obtain ⟨hbrokerage, hname⟩ := Platform.active?_eq_some hactive
          rw [← p.eq_of_id (hinv.brokerages link hmem) hbrokerage hid] at hname
          exact ⟨link, hlinks ▸ hmem, huser, hname, hclient⟩
        · obtain ⟨link', hmem, hrest⟩ := h userId name' cached' hcached
          exact ⟨link', hlinks ▸ hmem, hrest⟩
  | brokerLogout broker user name =>
      obtain rfl := Option.some.inj hstep
      refine iff_of_true ?_ trivial
      rcases brokerLogout_cases (w := w) broker with hsame | hcleared
      · rw [hsame]
        exact h
      · rw [hcleared]
        refine h.of_sessions (List.Subset.refl _) fun userId name' cached hcached => ?_
        exact session?_of_delete hcached
  | wait microseconds =>
      obtain rfl := Option.some.inj hstep
      refine iff_of_true (h.of_sessions (List.Subset.refl _) fun userId name cached hcached => ?_)
        trivial
      exact Expiring.get_mono (Nat.le_add_right _ _) hcached

end

/-- **Sessions belong to links.**  In every state of a run the cached sessions belong to current links
and new links are listed as they were answered, exactly if no step of the run deletes a link that has
a session. -/
theorem sessionsCurrent_iff_keepsSessions (py : Python) (p : Platform) {es : List Event} {w : World}
    (hrun : Run (step py p) .initial es w) :
    EveryState (step py p) .initial es (fun _ v => SessionsCurrent py p v) ↔
      EveryStep (step py p) .initial es World.KeepsSessions := by
  have hinv : ∀ {earlier v}, Run (step py p) .initial earlier v → LinkInv p v := fun h =>
    h.invariant (LinkInv.initial p) fun _ _ _ hv hstep => hv.step hstep
  refine everyState_iff_everyStep ?_ ?_ hrun
  · refine Linked.sessionsCurrent (LinkInv.initial p) fun userId name cached hcached => ?_
    cases hcached
  · intro earlier e v u hv hearlier hstep
    have hlinked : Linked v := (hearlier earlier v (List.prefix_refl _) hv).linked
    rw [← linked_step_iff (hinv hv) hlinked hstep]
    constructor
    · exact fun hcurrent => hcurrent.linked
    · exact fun h => h.sessionsCurrent ((hinv hv).step hstep)

/-- Angel One alone, answering every request with the same tokens. -/
def angelOne : Platform where
  brokerages := [⟨1, "angel_one", true⟩]
  endpoints := [⟨⟨1, "angel_one", true⟩, "login", "", "POST", "JSON", .dict []⟩]
  ids_nodup := List.nodup_singleton _
  names_nodup := List.nodup_singleton _

def acceptingBroker : Broker := fun _ => .body (.dict [("status", .bool true),
  ("data", .dict [("jwtToken", .str "jwt"), ("feedToken", .str "feed")])])

def trader : User := ⟨1, "trader"⟩

/-- A link, and a login with it. -/
def linkedLogin : List Event :=
  [.createLink trader "angel_one" [("client_id", .str "C1"), ("api_key", .str "K1")] 7,
    .brokerLogin acceptingBroker trader "angel_one"
      [("password", .str "secret"), ("totp", .str "123456")]]

theorem sessionsCurrent_iff_keepsSessions_unlinked :
    ∃ w, Run (step .default angelOne) .initial
        (linkedLogin ++ [.brokerLogout acceptingBroker trader "angel_one", .deleteLink trader 7]) w ∧
      (EveryState (step .default angelOne) .initial
          (linkedLogin ++ [.brokerLogout acceptingBroker trader "angel_one", .deleteLink trader 7])
          (fun _ v => SessionsCurrent .default angelOne v) ↔
        EveryStep (step .default angelOne) .initial
          (linkedLogin ++ [.brokerLogout acceptingBroker trader "angel_one", .deleteLink trader 7])
          World.KeepsSessions) :=
  ⟨_, rfl, sessionsCurrent_iff_keepsSessions .default angelOne rfl⟩

/-- The link is deleted and its session stays. -/
theorem not_sessionsCurrent_unlinked :
    ¬ EveryState (step .default angelOne) .initial (linkedLogin ++ [.deleteLink trader 7])
      (fun _ v => SessionsCurrent .default angelOne v) := by
  intro h
  have hvalues : (exec (step .default angelOne) .initial (linkedLogin ++ [.deleteLink trader 7])).map
      (fun w => (w.links.isEmpty, (w.session? 1 "angel_one").isSome)) = some (true, true) := by
    decide +kernel
  obtain ⟨w, hrun, hw⟩ := Option.map_eq_some_iff.mp hvalues
  obtain ⟨hempty, hsession⟩ := Prod.mk.inj hw
  obtain ⟨cached, hcached⟩ := Option.isSome_iff_exists.mp hsession
  obtain ⟨link, hlink, -⟩ := (h _ w (List.prefix_refl _) hrun).linked 1 "angel_one" cached hcached
  rw [List.isEmpty_iff.mp hempty] at hlink
  cases hlink

end DjasktTrading.Brokerage
