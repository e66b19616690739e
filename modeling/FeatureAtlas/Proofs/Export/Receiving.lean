import Mathlib.Data.List.Basic
import FeatureAtlas.Export.Sink

/-!
What a sink with little room holds of an export. In whatever parts a text is written, the sink takes
the beginning of it, as far as there is room, and is flushed only once it has the whole text.
-/

namespace FeatureAtlas

/-! The bytes of texts. -/

theorem byteArray_toList_loop (bytes : ByteArray) (index : Nat) (front : List UInt8) :
    ByteArray.toList.loop bytes index front = front.reverse ++ bytes.data.toList.drop index := by
  induction index, front using ByteArray.toList.loop.induct bytes with
  | case1 index front inside ih =>
      have bound : index < bytes.data.toList.length := inside
      have here : bytes.get! index = bytes.data.toList[index] :=
        getElem!_pos bytes.data index inside
      rw [ByteArray.toList.loop, if_pos inside, ih, List.drop_eq_getElem_cons bound, here,
        List.reverse_cons, List.append_assoc, List.singleton_append]
  | case2 index front outside =>
      have behind : bytes.data.toList.length ≤ index := Nat.le_of_not_lt outside
      rw [ByteArray.toList.loop, if_neg outside, List.drop_eq_nil_of_le behind, List.append_nil]

theorem textBytes_eq (text : String) : textBytes text = text.toByteArray.data.toList := by
  rw [textBytes, String.toUTF8_eq_toByteArray, ByteArray.toList, byteArray_toList_loop,
    List.reverse_nil, List.nil_append, List.drop_zero]

theorem textBytes_append (text other : String) :
    textBytes (text ++ other) = textBytes text ++ textBytes other := by
  rw [textBytes_eq, textBytes_eq, textBytes_eq, String.toByteArray_append]
  simp

theorem join_cons (text : String) (rest : List String) :
    String.join (text :: rest) = text ++ String.join rest := by
  apply String.toList_inj.mp
  simp [String.toList_join]

namespace Sink

variable (sink : Sink)

/-! Writing. -/

@[simp] theorem room_write (bytes : List UInt8) :
    (sink.write bytes).1.room = sink.room - bytes.length := rfl

theorem write_nil : (sink.write []).1 = sink := by
  simp [write]

theorem write_write (first second : List UInt8) :
    ((sink.write first).1.write second).1 = (sink.write (first ++ second)).1 := by
  simp only [write, List.append_assoc, ← List.take_append, List.length_append, Nat.sub_add_eq]

theorem write_of_full (full : sink.room = 0) (bytes : List UInt8) :
    (sink.write bytes).1 = sink := by
  obtain ⟨taken, room, refusesFlush, flushes⟩ := sink
  obtain rfl : room = 0 := full
  simp [write]

theorem writeAll_eq (bytes : List UInt8) :
    sink.writeAll bytes =
      ((sink.write bytes).1, if bytes.length ≤ sink.room then .ok () else .error .full) := by
  induction sink, bytes using writeAll.induct with
  | case1 sink =>
      rw [writeAll, if_pos rfl, write_nil, List.length_nil, if_pos (Nat.zero_le _)]
  | case2 sink bytes some full =>
      have short : ¬bytes.length ≤ sink.room := by
        have := List.length_pos_iff.mpr some
        omega
      rw [writeAll, if_neg some, if_pos full, write_of_full sink full, if_neg short]
  | case3 sink bytes some room ih =>
      -- the rest is written into what is left of the room, which is nothing unless there is no rest
      have whole : ((sink.write bytes).1.write (sink.write bytes).2).1 = (sink.write bytes).1 := by
        by_cases fits : bytes.length ≤ sink.room
        · have done : (sink.write bytes).2 = [] := List.drop_eq_nil_of_le fits
          rw [done, write_nil]
        · exact write_of_full _ (by rw [room_write]; omega) _
      have rest : (sink.write bytes).2.length = bytes.length - sink.room := List.length_drop
      have sameFit : (sink.write bytes).2.length ≤ (sink.write bytes).1.room ↔
          bytes.length ≤ sink.room := by
        rw [rest, room_write]
        omega
      rw [writeAll, if_neg some, if_neg room, ih, whole]
      simp only [sameFit]

theorem writeTexts_eq (texts : List String) :
    sink.writeTexts texts = ((sink.write (textBytes (String.join texts))).1,
      if (textBytes (String.join texts)).length ≤ sink.room then .ok () else .error .full) := by
  induction texts generalizing sink with
  | nil =>
      have nothing : textBytes (String.join []) = [] := by
        rw [textBytes_eq]
        rfl
      rw [writeTexts, nothing, write_nil, List.length_nil, if_pos (Nat.zero_le _)]
  | cons text rest ih =>
      rw [writeTexts, writeAll_eq, join_cons, textBytes_append, ← write_write, List.length_append]
      by_cases fits : (textBytes text).length ≤ sink.room
      · have sameFit : (textBytes (String.join rest)).length ≤
              (sink.write (textBytes text)).1.room ↔
            (textBytes text).length + (textBytes (String.join rest)).length ≤ sink.room := by
          rw [room_write]
          omega
        simp only [if_pos fits, ih, sameFit]
      · have full : (sink.write (textBytes text)).1.room = 0 := by
          rw [room_write]
          omega
        have short : ¬(textBytes text).length + (textBytes (String.join rest)).length ≤
            sink.room := by omega
        simp only [if_neg fits, if_neg short, write_of_full _ full]

theorem receive_eq (texts : List String) :
    sink.receive texts =
      if (textBytes (String.join texts)).length ≤ sink.room then
        (sink.write (textBytes (String.join texts))).1.flush
      else ((sink.write (textBytes (String.join texts))).1, .error .full) := by
  rw [receive, writeTexts_eq]
  split_ifs <;> rfl

theorem receive_empty (room : Nat) (refusesFlush : Bool) (texts : List String) :
    (empty room refusesFlush).receive texts =
      let bytes := textBytes (String.join texts)
      ({ taken := bytes.take room
         room := room - bytes.length
         refusesFlush
         flushes := if bytes.length ≤ room then 1 else 0 },
        if bytes.length ≤ room then if refusesFlush then .error .flushRefused else .ok ()
        else .error .full) := by
  rw [receive_eq]
  by_cases fits : (textBytes (String.join texts)).length ≤ (empty room refusesFlush).room
  · have whole : (textBytes (String.join texts)).length ≤ room := fits
    simp only [if_pos fits, if_pos whole]
    rfl
  · have short : ¬(textBytes (String.join texts)).length ≤ room := fits
    simp only [if_neg fits, if_neg short]
    rfl

theorem receive_empty_ok_iff (room : Nat) (refusesFlush : Bool) (texts : List String) :
    ((empty room refusesFlush).receive texts).2 = .ok () ↔
      (textBytes (String.join texts)).length ≤ room ∧ refusesFlush = false := by
  rw [receive_empty]
  by_cases fits : (textBytes (String.join texts)).length ≤ room
  · cases refusesFlush <;> simp [fits]
  · simp [fits]

end Sink

namespace FeatureModel

/-- A sink with some room holds as much of an exported text as there is room for, in whatever parts
the text is written. The export succeeds if the whole text has room and flushing does; without room
for all of it the sink is full, and it is not flushed. Afterwards the model can be exported
again. -/
theorem exportInto_takes_beginning (model : FeatureModel) (format : ExportFormat) (room : Nat)
    (refusesFlush : Bool) :
    let bytes := textBytes (model.exportText format)
    let outcome := model.exportInto format (.empty room refusesFlush)
    outcome.1.taken = bytes.take (min room bytes.length) ∧
      (outcome.2 = .ok () ↔ bytes.length ≤ room ∧ refusesFlush = false) ∧
      (room < bytes.length → outcome.2 = .error .full ∧ outcome.1.flushes = 0) ∧
      (bytes.length ≤ room → outcome.1.flushes = 1 ∧
        (refusesFlush = true → outcome.2 = .error .flushRefused)) ∧
      (∀ parts, String.join parts = model.exportText format →
        (Sink.empty room refusesFlush).receive parts = outcome) ∧
      ∀ enough, bytes.length ≤ enough →
        (model.exportInto format (.empty enough false)).1.taken = bytes ∧
          (model.exportInto format (.empty enough false)).2 = .ok () := by
  intro bytes outcome
  have exported (room : Nat) (refusesFlush : Bool) :
      model.exportInto format (.empty room refusesFlush) = _ :=
    Sink.receive_empty room refusesFlush (model.exportParts format)
  have isOutcome : outcome = _ := exported room refusesFlush
  refine ⟨?_, Sink.receive_empty_ok_iff _ _ _, ?_, ?_, ?_, ?_⟩
  · rw [isOutcome, ← List.take_take, List.take_length]
    rfl
  · intro short
    rw [isOutcome]
    exact ⟨if_neg (Nat.not_le_of_lt short), if_neg (Nat.not_le_of_lt short)⟩
  · intro fits
    rw [isOutcome]
    refine ⟨if_pos fits, fun refuses => ?_⟩
    exact (if_pos fits).trans (if_pos refuses)
  · intro parts same
    rw [isOutcome, Sink.receive_empty, same]
    rfl
  · intro enough fits
    rw [exported]
    exact ⟨List.take_of_length_le fits, if_pos fits⟩

theorem blank_document_cut_short :
    let bytes := textBytes (({} : FeatureModel).exportText .json)
    let outcome (room : Nat) (refusesFlush : Bool) :=
      ({} : FeatureModel).exportInto .json (.empty room refusesFlush)
    bytes.length = 57 ∧ (outcome 56 true).1.taken = bytes.take 56 ∧
      (outcome 56 true).2 = .error .full ∧ (outcome 56 true).1.flushes = 0 ∧
      (outcome 57 true).2 = .error .flushRefused ∧ (outcome 57 false).2 = .ok () := by
  intro bytes outcome
  have length : bytes.length = 57 := by
    change (textBytes _).length = 57
    rw [textBytes_eq]
    decide
  have short : 56 < bytes.length := by omega
  have fits : bytes.length ≤ 57 := by omega
  obtain ⟨beginning, _, cut, _⟩ := exportInto_takes_beginning {} .json 56 true
  obtain ⟨_, _, _, refused, _⟩ := exportInto_takes_beginning {} .json 57 true
  obtain ⟨_, succeeds, _⟩ := exportInto_takes_beginning {} .json 57 false
  rw [Nat.min_eq_left (Nat.le_of_lt short)] at beginning
  exact ⟨length, beginning, (cut short).1, (cut short).2, (refused fits).2 rfl,
    succeeds.mpr ⟨fits, rfl⟩⟩

end FeatureModel

end FeatureAtlas
