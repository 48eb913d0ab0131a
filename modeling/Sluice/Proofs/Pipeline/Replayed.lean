import Sluice.Proofs.Pipeline.Messages
import Sluice.Proofs.Pipeline.Printed
import Sluice.Proofs.Pipeline.RowsSent

/-
  A run over recorded messages and a database that prints. Its loading half never stops, so the
  run itself feeds the messages to the reading half, one after another (`printing_feeds`); the
  reading half then sends the rows of their joined text and fails just if making them does. What is
  printed are those rows (`run_prints`), if the parts of the load fit into memory and the clock can
  tell the end of its waits.
-/

namespace Sluice

open Delimited

/-! ## The whole run -/

namespace Run

variable {limits : Nat × Nat} {sent : List Row}

/-- A run that prints the rows sent, and whose script is messages and nothing else. -/
structure Prints (limits : Nat × Nat) (r : Run Printing) (sent : List Row) : Prop where
  recorded : ∃ messages : List Bytes, r.script = messages.map .message
  loading : r.loading.Prints limits sent

theorem Prints.next {r : Run Printing} (h : r.Prints limits sent) :
    (Run.next r).2.Prints limits sent := by
  have hsettled := Loading.settle_prints h.loading
  obtain ⟨messages, hscript⟩ := h.recorded
  unfold Run.next
  dsimp only
  split
  · exact ⟨h.recorded, hsettled⟩
  · have hsame : (r.mapLoading Loading.settle).script = messages.map .message := hscript
    rw [hsame]
    cases messages with
    | nil => exact ⟨⟨[], rfl⟩, hsettled⟩
    | cons body messages => exact ⟨⟨messages, rfl⟩, hsettled⟩

theorem prints_kept (limits : Nat × Nat) : ReadingKeeps (Prints limits) where
  calls _ :=
    { declare := fun _ _ h => ⟨h.recorded, h.loading⟩
      next := fun _ h => h.next
      ack := fun _ _ h => ⟨h.recorded, h.loading⟩
      close := fun _ h => ⟨h.recorded, h.loading⟩ }
  send row h := ⟨h.recorded, Loading.send_prints h.loading row⟩

/-- A run that prints and has these messages left. -/
def PrintsFed (limits : Nat × Nat) (r : Run Printing) (consuming : Bool) (messages : List Bytes) :
    Prop :=
  r.Feeds none consuming messages ∧ ∃ sent, r.Prints limits sent

/-- A run that prints never goes off. -/
theorem printing_feeds (limits : Nat × Nat) :
    MessageStream.Feeds (fun _ => False) none (PrintsFed limits) := by
  have hkept := (prints_kept limits).calls
  refine (run_feeds none).along (P := fun r : Run Printing => ∃ sent, r.Prints limits sent)
    ⟨?_, ?_, ?_, ?_⟩ ?_
  · exact fun d r ⟨sent, h⟩ => ⟨sent, (hkept sent).declare d r h⟩
  · exact fun r ⟨sent, h⟩ => ⟨sent, (hkept sent).next r h⟩
  · exact fun t r ⟨sent, h⟩ => ⟨sent, (hkept sent).ack t r h⟩
  · exact fun r ⟨sent, h⟩ => ⟨sent, (hkept sent).close r h⟩
  · exact fun r ⟨sent, h⟩ hoff => hoff.2 h.loading.going

theorem PrintsFed.send {r : Run Printing} {c : Bool} {messages : List Bytes}
    (h : r.PrintsFed limits c messages) (row : Row) :
    (r.mapLoading (Loading.send row)).PrintsFed limits c messages := by
  obtain ⟨hfeeds, sent, hprints⟩ := h
  have hsend := Loading.send_coarseSteps hprints.loading.consistent row
  exact ⟨hfeeds.mapLoading hsend, _, (prints_kept limits).send row hprints⟩

/-- The reading half comes to its end, and the loading half has printed the rows made of the joined
text, or has them before it. -/
theorem readOut_feeds {r : Run Printing} {messages : List Bytes} (h : r.Feeds none false messages)
    (hp : r.Prints limits []) (config : LoadConfig) :
    (r.readOut config).1 =
        some (rowsOf config.badRecords config.strictColumns {} (entries (joinedText messages))).2 ∧
      (r.readOut config).2.loading.Prints limits
        (rowsOf config.badRecords config.strictColumns {} (entries (joinedText messages))).1 := by
  have hfed : r.PrintsFed limits false messages := ⟨h, [], hp⟩
  have hholds : MessageStream.Holds (PrintsFed limits) (r.reader config).records.source
      (joinedText messages) := ⟨false, messages, hfed, rfl, rfl⟩
  have hopens : Opens (r.reader config).records.source (joinedText messages) :=
    (printing_feeds limits).opens rfl rfl hfed
  have hserves := (printing_feeds limits).serves
  have hreads : (r.reader config).Reads (MessageStream.Holds (PrintsFed limits)) config.badRecords
      config.strictColumns {} (entries (joinedText messages)) :=
    ⟨.of_opens hserves rfl hholds hopens, rfl, rfl, rfl, rfl, rfl, rfl⟩
  obtain ⟨hsent, htrouble⟩ := hreads.yields hserves
    (fun row s text hs => hs.mapConsumer fun hf => hf.send row) (pump_yields (r.reader config))
  obtain ⟨failure, hfailure⟩ := readOut_answered config h.prompt
  have hsame : failure =
      (rowsOf config.badRecords config.strictColumns {} (entries (joinedText messages))).2 :=
    Option.map_injective (fun f g hfg => ReadTrouble.failed.inj hfg)
      ((pump_of_readOut hfailure).symm.trans htrouble)
  have hread := (readOut_keeps (prints_kept limits) config hp).loading
  rw [hsent] at hread
  exact ⟨hsame ▸ hfailure, hread⟩

end Run

/-- A run over recorded messages prints the rows made of their joined text, and fails just if
making them does. -/
theorem Pipeline.run_prints {config : LoadConfig} (hv : config.validate = .ok ())
    (hm : config.fitsMemory = true) (hflush : config.flushInterval < clockEnd)
    (hdrain : config.drainTimeout < clockEnd) (messages : List Bytes) :
    ∃ o, (start config ({} : Printing) (messages.map .message)).run.1 = .ended o ∧
      o.exitCode = (if (rowsOf config.badRecords config.strictColumns {}
        (entries (joinedText messages))).2.isSome then 1 else 0) ∧
      (start config ({} : Printing)
          (messages.map .message)).run.2.parts.loading.loader.client.printed =
        encodeRows (rowsOf config.badRecords config.strictColumns {}
          (entries (joinedText messages))).1 := by
  let p := start config ({} : Printing) (messages.map .message)
  have hprints : p.connected.parts.Prints (config.flushInterval, config.drainTimeout) [] := by
    refine ⟨⟨messages, rfl⟩, rfl, rfl, rfl, rfl, rfl, rfl,
      ⟨LoadConfig.flushInterval_pos hv, hflush⟩, [], rfl, ⟨rfl, rfl, rfl⟩, ?_, rfl, rfl, rfl,
      fun _ => rfl⟩
    show (Gate.ofMaxErrors config.maxErrors).trip = none
    unfold Gate.trip Gate.exceeds Gate.ofMaxErrors
    split <;> rfl
  have hfeeds : p.connected.parts.Feeds none false messages := by
    have hscript : p.connected.parts.script = messages.map .message ++ [] :=
      (List.append_nil _).symm
    have hfeeds := Run.Feeds.start rfl rfl rfl hscript isPlain_of_messages .ends
    rwa [messagesIn_map] at hfeeds
  obtain ⟨hfailure, hread⟩ := Run.readOut_feeds hfeeds hprints config
  obtain ⟨hm', -⟩ | ⟨-, ⟨hstuck, -⟩ | ⟨failure, hfailure', hrun⟩⟩ :=
    run_of_connected (p := p) ⟨rfl, rfl⟩ hv rfl
  · exact nomatch hm'.symm.trans hm
  · exact nomatch hstuck.symm.trans hfailure
  · obtain rfl := Option.some.inj (hfailure'.symm.trans hfailure)
    show ∃ o, p.run.1 = .ended o ∧ _ ∧ p.run.2.parts.loading.loader.client.printed = _
    rw [hrun]
    exact windUp_prints (p := p.streamed) hread hdrain _

end Sluice
