import Mathlib.Data.List.Basic
import Sigimora.Library.Run

/-!
# Channels that may be severed

The ideal channel between two parties. What is sent arrives once and in order. At
any time the channel may be severed: some of the end of what is on the way is lost,
and so is everything that is sent later. A channel keeps what it has delivered, what
is on the way and what is lost, so that nothing is lost in between.
-/

/-- What was sent on a channel, by what became of it. -/
structure Fifo (α : Type) where
  delivered : List α
  transit : List α
  lost : List α
  severed : Bool
  intact : severed = true ∨ lost = []

namespace Fifo

variable {α : Type}

/-- What was sent, in order. -/
def sent (channel : Fifo α) : List α := channel.delivered ++ channel.transit ++ channel.lost

/-- Nothing was sent. -/
def new : Fifo α := ⟨[], [], [], false, Or.inr rfl⟩

/-- Send `a`, which is lost on a severed channel. -/
def send (channel : Fifo α) (a : α) : Fifo α where
  delivered := channel.delivered
  transit := if channel.severed then channel.transit else channel.transit ++ [a]
  lost := if channel.severed then channel.lost ++ [a] else channel.lost
  severed := channel.severed
  intact := by
    rcases channel.intact with hsevered | hlost
    · exact Or.inl hsevered
    · cases hsevered : channel.severed with
      | true => exact Or.inl rfl
      | false => exact Or.inr hlost

/-- Deliver the first of what is on the way. -/
def deliver (channel : Fifo α) : Fifo α :=
  match channel.transit with
  | [] => channel
  | a :: rest => { channel with delivered := channel.delivered ++ [a], transit := rest }

/-- Sever the channel behind the first `k` of what is on the way. -/
def sever (channel : Fifo α) (k : ℕ) : Fifo α where
  delivered := channel.delivered
  transit := channel.transit.take k
  lost := channel.transit.drop k ++ channel.lost
  severed := true
  intact := Or.inl rfl

/-- What can happen on a channel. -/
inductive Action (α : Type)
  | send (a : α)
  | deliver
  | sever (k : ℕ)

/-- The channel after an action. -/
def step (channel : Fifo α) : Action α → Fifo α
  | .send a => channel.send a
  | .deliver => channel.deliver
  | .sever k => channel.sever k

variable {channel : Fifo α} {a : α} {rest : List α}

/-- Nothing has been sent through a new channel. -/
@[simp] theorem sent_new : (new : Fifo α).sent = [] := rfl

/-- An intact channel loses nothing. -/
theorem lost_eq_nil (h : channel.severed = false) : channel.lost = [] :=
  channel.intact.resolve_left (by rw [h]; exact Bool.false_ne_true)

/-- An intact channel takes up what is sent. -/
theorem send_transit_of_intact (h : channel.severed = false) :
    (channel.send a).transit = channel.transit ++ [a] := by
  simp only [send, h, Bool.false_eq_true, if_false]

/-- A severed channel takes up nothing more. -/
theorem send_transit_of_severed (h : channel.severed = true) :
    (channel.send a).transit = channel.transit := by
  simp only [send, h, if_true]

/-- Whatever is sent counts as sent. -/
@[simp] theorem sent_send (channel : Fifo α) (a : α) :
    (channel.send a).sent = channel.sent ++ [a] := by
  cases hsevered : channel.severed with
  | true => simp only [sent, send, hsevered, if_true, List.append_assoc]
  | false =>
    simp only [sent, send, hsevered, Bool.false_eq_true, if_false, lost_eq_nil hsevered,
      List.append_nil, List.append_assoc]

/-- The first entry under way is delivered. -/
theorem deliver_of_transit (h : channel.transit = a :: rest) :
    channel.deliver = { channel with delivered := channel.delivered ++ [a], transit := rest } := by
  unfold deliver
  split
  · next hempty =>
    rw [h] at hempty
    cases hempty
  · next hcons =>
    rw [h] at hcons
    cases hcons
    rfl

/-- A delivery sends nothing. -/
@[simp] theorem sent_deliver (channel : Fifo α) : channel.deliver.sent = channel.sent := by
  cases htransit : channel.transit with
  | nil => rw [deliver, htransit]
  | cons a rest =>
    rw [deliver_of_transit htransit, sent, sent, htransit]
    simp only [List.append_assoc, List.cons_append, List.nil_append]

/-- Cutting the channel sends nothing, and takes nothing back. -/
@[simp] theorem sent_sever (channel : Fifo α) (k : ℕ) : (channel.sever k).sent = channel.sent := by
  simp only [sent, sever, List.append_assoc]
  rw [← List.append_assoc (channel.transit.take k), List.take_append_drop]

/-- What was delivered is a front of what was sent. -/
theorem delivered_prefix (channel : Fifo α) : channel.delivered <+: channel.sent := by
  rw [sent, List.append_assoc]
  exact List.prefix_append _ _

/-- On a channel that is whole, everything that is not on the way has arrived. -/
theorem delivered_eq_sent (hintact : channel.severed = false) (hempty : channel.transit = []) :
    channel.delivered = channel.sent := by
  rw [sent, hempty, lost_eq_nil hintact, List.append_nil, List.append_nil]

end Fifo
