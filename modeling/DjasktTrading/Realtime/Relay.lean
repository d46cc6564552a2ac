import DjasktTrading.Ledger.Recency
import DjasktTrading.Realtime.Snapshots

/-!
# Relay — one order for all who watch

A group hands its messages to its members in the order in which they are sent, and a consumer passes on
what it has been handed in that order.  Two windows on one portfolio never contradict each other,
whenever they were opened and however slow they are.
-/

open Reasoning

namespace DjasktTrading.Realtime

open Ledger

/-- The updates that were sent on the connection. -/
def Connection.updates (conn : Connection) : List Payload := conn.sent.filterMap SocketMessage.payload?

/-- The messages that the group of a portfolio has been sent, with the requests that sent them. -/
def messagesTo (w : Ledger.World) (text : String) : List (ℕ × Broadcast) :=
  w.sent.filter fun x => x.2.group = portfolioGroupName text

section

variable {wire : Wire} {py : Python} {start : Ledger} {l l' v : Ledger.World} {w : World}
  {conn conn' : Connection} {text : String}

/-! ## 1. What a channel has been handed -/

/-- Nothing before the channel joins its group, and from then on the messages of the group in their
order, all of them while it is a member. -/
structure Relayed (l : Ledger.World) (conn : Connection) : Prop where
  outside : conn.joined = none → conn.member = false ∧ conn.updates ++ conn.inbox = []
  group : ∀ v, conn.joined = some v → conn.groupName = some (portfolioGroupName conn.path.text)
  joined : ∀ v, conn.joined = some v → v.sent <+: l.sent
  handed : ∀ v, conn.joined = some v →
    conn.updates ++ conn.inbox <+: sentSince v l conn.path.text
  all : ∀ v, conn.joined = some v → conn.member = true →
    conn.updates ++ conn.inbox = sentSince v l conn.path.text

namespace Relayed

/-- What is dispatched goes from the inbox to the updates; a channel may leave its group. -/
theorem keep (h : Relayed l conn) (hpath : conn'.path = conn.path) (hjoined : conn'.joined = conn.joined)
    (hgroup : conn'.groupName = conn.groupName ∨
      conn'.groupName = some (portfolioGroupName conn.path.text))
    (hmember : conn'.member = true → conn.member = true)
    (hhanded : conn'.updates ++ conn'.inbox = conn.updates ++ conn.inbox) : Relayed l conn' where
  outside hnone := by
    obtain ⟨houtside, hnothing⟩ := h.outside (hjoined ▸ hnone)
    refine ⟨?_, hhanded.trans hnothing⟩
    rw [← Bool.not_eq_true]
    exact fun hin => absurd ((hmember hin).symm.trans houtside) (by decide)
  group v hv := by
    rw [hpath]
    exact hgroup.elim (fun hsame => hsame.trans (h.group v (hjoined ▸ hv))) id
  joined v hv := h.joined v (hjoined ▸ hv)
  handed v hv := by
    rw [hhanded, hpath]
    exact h.handed v (hjoined ▸ hv)
  all v hv hin := by
    rw [hhanded, hpath]
    exact h.all v (hjoined ▸ hv) (hmember hin)

/-- A happening that is no update. -/
theorem note (h : Relayed l conn) {happening : Happening}
    (hnone : happening.message?.bind SocketMessage.payload? = none) :
    Relayed l (conn.note happening) := by
  refine h.keep rfl rfl (.inl rfl) id ?_
  have hupdates : (conn.note happening).updates = conn.updates := by
    unfold Connection.updates
    rw [Connection.sent, Connection.note, conn.sent_concat, List.filterMap_append]
    cases hmessage : happening.message? with
    | none => exact List.append_nil _
    | some message =>
        rw [hmessage, Option.bind_some] at hnone
        simp [hnone]
  rw [hupdates]
  rfl

theorem step (hsnapshot : SnapshotInv py start l conn) (h : Relayed l conn) {e : SocketEvent}
    (hstep : conn.step wire l e = some conn') : Relayed l conn' := by
  have hstands := hsnapshot.stands
  cases Connection.step_moves hstep with
  | receive frame => exact h.keep rfl rfl (.inl rfl) id rfl
  | ignored idle next known => exact (h.note rfl).keep rfl rfl (.inl rfl) id rfl
  | binary idle next unknown =>
      exact ((h.note rfl).note rfl).keep rfl rfl (.inl rfl) id rfl
  | text idle next unknown => exact (h.note rfl).keep rfl rfl (.inl rfl) id rfl
  | accepted checking valid => exact (h.note rfl).keep rfl rfl (.inl rfl) id rfl
  | refused checking => exact (h.note rfl).keep rfl rfl (.inl rfl) id rfl
  | owned checking owner => exact h.keep rfl rfl (.inr rfl) id rfl
  | groupAdded joining =>
      -- from here on the group's messages come to the channel
      rw [joining] at hstands
      obtain ⟨-, hgroup, -, hinbox, hsent⟩ := hstands
      have hnothing : conn.updates ++ conn.inbox = [] := by
        rw [Connection.updates, hsent, hinbox]
        rfl
      refine ⟨nofun, fun v hv => hgroup, ?_, ?_, ?_⟩
      · rintro v ⟨⟩
        exact List.prefix_refl _
      · rintro v ⟨⟩
        exact hnothing ▸ List.nil_prefix
      · rintro v ⟨⟩ -
        rw [sentSince_self]
        exact hnothing
  | tradesFetched querying parsed => exact h.keep rfl rfl (.inl rfl) id rfl
  | historySent sending => exact (h.note rfl).keep rfl rfl (.inl rfl) id rfl
  | @dispatchUpdate payload inbox idle next =>
      refine h.keep rfl rfl (.inl rfl) id ?_
      have hupdates : (conn.note (.update payload)).updates = conn.updates ++ [payload] := by
        unfold Connection.updates
        rw [Connection.sent, Connection.note, conn.sent_concat, List.filterMap_append]
        rfl
      rw [next, ← List.singleton_append, ← List.append_assoc, ← hupdates]
      rfl
  | timedOut unknown => exact (h.note rfl).keep rfl rfl (.inl rfl) id rfl
  | timerOver => exact h.keep rfl rfl (.inl rfl) id rfl
  | stops => exact h.keep rfl rfl (.inl rfl) id rfl
  | disconnect idle =>
      exact h.keep rfl rfl (.inl rfl) (fun hmember => absurd hmember Bool.false_ne_true) rfl

theorem deliver (h : Relayed l conn) (hsent : l.sent <+: l'.sent) :
    Relayed l' (conn.deliver (l'.sent.drop l.sent.length)) := by
  have hsince : ∀ v, conn.joined = some v → sentSince v l' conn.path.text =
      sentSince v l conn.path.text ++ sentSince l l' conn.path.text :=
    fun v hv => sentSince_append (h.joined v hv) hsent
  unfold Connection.deliver
  split
  · rename_i hmember
    -- a member is handed all that the step has sent to the group
    have hnew : ∀ v, conn.joined = some v → conn.updates ++ (conn.inbox ++
        ((l'.sent.drop l.sent.length).filter fun x => conn.groupName = some x.2.group).map
          (·.2.payload)) = sentSince v l' conn.path.text := by
      intro v hv
      rw [hsince v hv, ← h.all v hv hmember, ← List.append_assoc]
      simp only [sentSince, h.group v hv, Option.some.injEq, eq_comm]
    refine ⟨?_, h.group, fun v hv => (h.joined v hv).trans hsent, ?_, fun v hv _ => hnew v hv⟩
    · intro hnone
      exact absurd (hmember.symm.trans (h.outside hnone).1) (by decide)
    · intro v hv
      exact (hnew v hv) ▸ List.prefix_refl _
  · rename_i hmember
    refine ⟨h.outside, h.group, fun v hv => (h.joined v hv).trans hsent, ?_, ?_⟩
    · intro v hv
      rw [hsince v hv]
      exact (h.handed v hv).trans (List.prefix_append _ _)
    · exact fun v hv hin => absurd hin hmember

theorem of_run {es : List Event} (hrun : Run (Realtime.step wire py) (.initial start) es w)
    (hconn : conn ∈ w.connections) : Relayed w.ledger conn := by
  refine (connection_invariant (P := fun l conn => SnapshotInv py start l conn ∧ Relayed l conn)
    ?connect ?socket ?ledger hrun conn hconn).2
  case connect =>
    intro fs l path hl
    exact ⟨.connect path hl, fun _ => ⟨rfl, rfl⟩, nofun, nofun, nofun, nofun⟩
  case socket =>
    rintro fs l conn e conn' hl ⟨hsnapshot, h⟩ hstep
    exact ⟨hsnapshot.step hstep, h.step hsnapshot hstep⟩
  case ledger =>
    rintro fs l conn e l' hl ⟨hsnapshot, h⟩ hstep
    exact ⟨hsnapshot.deliver hstep, h.deliver ((Precedes.refl hl).step hstep).sent⟩

end Relayed

/-! ## 2. One order -/

theorem messagesTo_since (h : v.sent <+: l.sent) :
    messagesTo l text = messagesTo v text ++
      (l.sent.drop v.sent.length).filter fun x => x.2.group = portfolioGroupName text := by
  obtain ⟨added, hadded⟩ := h
  unfold messagesTo
  rw [← hadded, List.drop_left, List.filter_append]

theorem nodup_messagesTo (h : ToldOnce l) (text : String) :
    ((messagesTo l text).map Prod.fst).Nodup :=
  h.nodup.sublist ((l.sent.filter_sublist).map Prod.fst)

/-- **One order for all who watch.**  A group's messages are of different requests, and every
connection to the portfolio is sent a stretch of them in their order, none left out and none twice:
from the moment it joins, and up to the last one, but for those that its channel still holds, as long
as it is a member. -/
theorem updates_in_one_order {es : List Event}
    (hrun : Run (Realtime.step wire py) (.initial start) es w) (text : String) :
    ((messagesTo w.ledger text).map Prod.fst).Nodup ∧
      ∀ conn ∈ w.connections, conn.path.text = text → ∃ missed handed later,
        messagesTo w.ledger text = missed ++ handed ++ later ∧
          handed.map (·.2.payload) = conn.updates ++ conn.inbox ∧
          (∀ v, conn.joined = some v → missed = messagesTo v text) ∧
          (conn.member = true → later = []) := by
  obtain ⟨fs, hledger⟩ := exists_run_ledger hrun
  refine ⟨nodup_messagesTo (.of_run hledger) text, ?_⟩
  rintro conn hconn rfl
  have hrelayed := Relayed.of_run hrun hconn
  cases hjoined : conn.joined with
  | none =>
      obtain ⟨houtside, hnothing⟩ := hrelayed.outside hjoined
      refine ⟨[], [], _, rfl, hnothing.symm, nofun, ?_⟩
      exact fun hmember => absurd (hmember.symm.trans houtside) (by decide)
  | some v =>
      let since := (w.ledger.sent.drop v.sent.length).filter fun x =>
        x.2.group = portfolioGroupName conn.path.text
      let n := (conn.updates ++ conn.inbox).length
      have hhanded : (since.take n).map (·.2.payload) = conn.updates ++ conn.inbox := by
        rw [List.map_take]
        exact (List.prefix_iff_eq_take.mp (hrelayed.handed v hjoined)).symm
      refine ⟨messagesTo v conn.path.text, since.take n, since.drop n, ?_, hhanded, ?_, ?_⟩
      · rw [List.append_assoc, List.take_append_drop]
        exact messagesTo_since (hrelayed.joined v hjoined)
      · rintro v' ⟨⟩
        rfl
      · intro hmember
        have hlength : n = since.length := by
          rw [← List.length_map (f := fun x : ℕ × Broadcast => x.2.payload)]
          exact congrArg List.length (hrelayed.all v hjoined hmember)
        rw [hlength, List.drop_length]

end

theorem updates_in_one_order_purchaseAfterQuery : ∃ w conn handed,
    Run (Realtime.step authWire .default) (.initial firstPortfolio) purchaseAfterQuery w ∧
      w.connections = [conn] ∧ conn.updates ≠ [] ∧
      messagesTo w.ledger firstPath.text = handed ∧
      handed.map (·.2.payload) = conn.updates ++ conn.inbox := by
  have hvalues : (exec (Realtime.step authWire .default) (.initial firstPortfolio)
      purchaseAfterQuery).map (fun w => w.connections.map fun conn => (conn.path.text, conn.member,
        conn.updates.length, conn.joined.map fun v => (messagesTo v firstPath.text).length)) =
      some [(firstPath.text, true, 1, some 0)] := by decide +kernel
  obtain ⟨w, hrun, hw⟩ := Option.map_eq_some_iff.mp hvalues
  obtain ⟨conn, hconn, hstate⟩ := List.map_eq_singleton_iff.mp hw
  simp only [Prod.mk.injEq] at hstate
  obtain ⟨hpath, hmember, hlength, hjoined⟩ := hstate
  obtain ⟨v, hv, hempty⟩ := Option.map_eq_some_iff.mp hjoined
  obtain ⟨missed, handed, later, hsplit, hhanded, hmissed, hlater⟩ :=
    (updates_in_one_order hrun firstPath.text).2 conn (hconn ▸ List.mem_singleton_self conn) hpath
  refine ⟨w, conn, handed, hrun, hconn, ?_, ?_, hhanded⟩
  · exact List.length_pos_iff.mp (by rw [hlength]; exact Nat.one_pos)
  · rw [hsplit, hmissed v hv, List.length_eq_zero_iff.mp hempty, hlater hmember, List.nil_append,
      List.append_nil]

end DjasktTrading.Realtime
