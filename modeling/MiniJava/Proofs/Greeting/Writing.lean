import MiniJava.CommandLine.Outcome
import MiniJava.Greeting.Sink

/-!
# Greetings in a sink of limited room

A write offers its bytes again and again until they have all been taken or the sink takes no more.
So two writes are one write of both texts, and a greeting is one write of its lines, each with a
newline behind it: the sink gets as much of this text as it has room for, and it is flushed exactly
if that is all of it.
-/

namespace MiniJava

theorem toList_eq_data (bytes : ByteArray) : bytes.toList = bytes.data.toList := by
  have hloop (i : Nat) (read : List UInt8) :
      ByteArray.toList.loop bytes i read = read.reverse ++ bytes.data.toList.drop i := by
    fun_induction ByteArray.toList.loop bytes i read with
    | case1 i read hlt ih =>
        have hlength : i < bytes.data.toList.length := hlt
        have hbyte : bytes.get! i = bytes.data.toList[i] := getElem!_pos bytes.data i hlt
        rw [ih, List.drop_eq_getElem_cons hlength, hbyte, List.reverse_cons, List.append_assoc]
        rfl
    | case2 i read hle =>
        have hnone : bytes.data.toList.drop i = [] := List.drop_of_length_le (Nat.le_of_not_lt hle)
        rw [hnone, List.append_nil]
  exact hloop 0 []

theorem bytes_append (text more : String) :
    (text ++ more).toUTF8.toList = text.toUTF8.toList ++ more.toUTF8.toList := by
  simp only [toList_eq_data, String.toUTF8_eq_toByteArray, String.toByteArray_append,
    ByteArray.toList_data_append]

theorem length_bytes (text : String) : text.toUTF8.toList.length = text.utf8ByteSize := by
  rw [toList_eq_data]
  rfl

theorem unlines_cons (line : String) (rest : List String) :
    unlines (line :: rest) = line ++ "\n" ++ unlines rest := by
  rw [unlines, List.map_cons, String.join_cons]
  rfl

namespace Greeting.Sink

def offer (sink : Sink) (bytes : List UInt8) : Except SinkError Nat × Sink :=
  if sink.room = 0 ∧ bytes ≠ [] then (.error .pipeClosed, sink)
  else
    let taken := min sink.room bytes.length
    (.ok taken,
      { sink with room := sink.room - taken, written := sink.written ++ bytes.take taken })

/-- What has not been taken is offered again until nothing is left or a call fails. -/
inductive Offers : Sink → List UInt8 → Result → Prop where
  | done {sink} : Offers sink [] (.ok (), sink)
  | more {sink after bytes taken result} (h : bytes ≠ [])
      (htaken : sink.offer bytes = (.ok taken, after))
      (hrest : Offers after (bytes.drop taken) result) : Offers sink bytes result
  | failed {sink after bytes failure} (h : bytes ≠ [])
      (hfailure : sink.offer bytes = (.error failure, after)) :
      Offers sink bytes (.error failure, after)

section Write

variable {sink : Sink} {bytes : List UInt8}

theorem write_of_le (h : bytes.length ≤ sink.room) :
    sink.write bytes = (.ok (),
      { sink with room := sink.room - bytes.length, written := sink.written ++ bytes }) := by
  simp only [write, List.take_of_length_le h, if_pos h]

theorem write_of_lt (h : sink.room < bytes.length) :
    sink.write bytes = (.error .pipeClosed,
      { sink with room := 0, written := sink.written ++ bytes.take sink.room }) := by
  have hroom : sink.room - (bytes.take sink.room).length = 0 := by
    rw [List.length_take]
    omega
  simp only [write, hroom, if_neg (Nat.not_le_of_lt h)]

theorem write_nil (sink : Sink) : sink.write [] = (.ok (), sink) := by
  rw [write_of_le (Nat.zero_le _), List.append_nil]
  rfl

/-- Two writes are one write of both texts. -/
theorem write_append (sink : Sink) (bytes more : List UInt8) :
    sink.write (bytes ++ more) = andThen (sink.write bytes) fun sink => sink.write more := by
  by_cases hfirst : bytes.length ≤ sink.room
  · rw [write_of_le hfirst, andThen]
    by_cases hboth : (bytes ++ more).length ≤ sink.room
    · have hmore : more.length ≤ sink.room - bytes.length := by
        rw [List.length_append] at hboth
        omega
      rw [write_of_le hboth, write_of_le hmore, List.length_append, Nat.sub_add_eq,
        List.append_assoc]
    · have hboth := Nat.lt_of_not_le hboth
      have hmore : sink.room - bytes.length < more.length := by
        rw [List.length_append] at hboth
        omega
      rw [write_of_lt hboth, write_of_lt hmore, List.take_append, List.take_of_length_le hfirst,
        List.append_assoc]
  · have hfirst := Nat.lt_of_not_le hfirst
    have hboth : sink.room < (bytes ++ more).length := by
      rw [List.length_append]
      omega
    rw [write_of_lt hboth, write_of_lt hfirst, andThen,
      List.take_append_of_le_length (Nat.le_of_lt hfirst)]
    exact nofun

/-- A call that does not fail takes something, and leaves the rest to be written. -/
theorem write_of_offer {after : Sink} {taken : Nat} (hne : bytes ≠ [])
    (h : sink.offer bytes = (.ok taken, after)) :
    0 < taken ∧ sink.write bytes = after.write (bytes.drop taken) := by
  unfold offer at h
  split at h
  · cases h
  · next hroom =>
      obtain ⟨hanswer, rfl⟩ := Prod.mk.inj h
      have htaken : min sink.room bytes.length = taken := Except.ok.inj hanswer
      have hbytes := List.length_pos_iff.mpr hne
      have hpos : 0 < sink.room := Nat.pos_of_ne_zero fun hzero => hroom ⟨hzero, hne⟩
      have hlength : (bytes.take taken).length = taken := by
        rw [List.length_take]
        omega
      have hfits : (bytes.take taken).length ≤ sink.room := by omega
      refine ⟨by omega, ?_⟩
      calc sink.write bytes
          = sink.write (bytes.take taken ++ bytes.drop taken) := by rw [List.take_append_drop]
        _ = andThen (sink.write (bytes.take taken)) fun sink => sink.write (bytes.drop taken) :=
          sink.write_append _ _
        _ = _ := by
          rw [write_of_le hfits, hlength, htaken]
          rfl

theorem write_of_failed {after : Sink} {failure : SinkError}
    (h : sink.offer bytes = (.error failure, after)) :
    sink.write bytes = (.error failure, after) := by
  unfold offer at h
  split at h
  · next hfull =>
      obtain ⟨hfailure, rfl⟩ := Prod.mk.inj h
      obtain rfl := Except.error.inj hfailure
      have hlt : sink.room < bytes.length := hfull.1 ▸ List.length_pos_iff.mpr hfull.2
      obtain ⟨room, written, flushed⟩ := sink
      obtain rfl : room = 0 := hfull.1
      rw [write_of_lt hlt, List.take_zero, List.append_nil]
  · cases h

/-- A write is the loop of its offers, which comes to an end. -/
theorem offers_iff {result : Result} : Offers sink bytes result ↔ result = sink.write bytes := by
  constructor
  · intro h
    induction h with
    | done => exact (write_nil _).symm
    | more hne htaken _ ih => rw [ih, (write_of_offer hne htaken).2]
    | failed _ hfailure => exact (write_of_failed hfailure).symm
  · rintro rfl
    induction hlength : bytes.length using Nat.strongRecOn generalizing sink bytes with
    | ind length ih =>
        by_cases hne : bytes = []
        · rw [hne, write_nil]
          exact .done
        · cases hoffer : sink.offer bytes with
          | mk answer after =>
              cases answer with
              | error failure =>
                  rw [write_of_failed hoffer]
                  exact .failed hne hoffer
              | ok taken =>
                  obtain ⟨hpos, hwrite⟩ := write_of_offer hne hoffer
                  have hbytes := List.length_pos_iff.mpr hne
                  have hshorter : (bytes.drop taken).length < length := by
                    rw [List.length_drop]
                    omega
                  rw [hwrite]
                  exact .more hne hoffer (ih _ hshorter rfl)

end Write

theorem andThen_assoc (result : Result) (next last : Sink → Result) :
    andThen (andThen result next) last = andThen result fun sink => andThen (next sink) last := by
  obtain ⟨answer, sink⟩ := result
  cases answer <;> rfl

/-- Lines are written as one text, and the sink is flushed behind it. -/
theorem writeLines_eq (sink : Sink) (lines : List String) :
    sink.writeLines lines = andThen (sink.write (unlines lines).toUTF8.toList) flush := by
  induction lines generalizing sink with
  | nil =>
      have hnone : (unlines []).toUTF8.toList = [] := by
        rw [toList_eq_data]
        rfl
      rw [hnone, write_nil]
      rfl
  | cons line rest ih =>
      rw [unlines_cons, bytes_append, bytes_append, write_append, write_append, andThen_assoc,
        andThen_assoc]
      simp only [writeLines, ih]

end Greeting.Sink

namespace Greeting

/-- A sink gets the text of a greeting up to its capacity. Writing succeeds and the sink is flushed
if this is all of the text, and otherwise it fails without a flush. Each write on the way is a loop
of calls that may take a part only. -/
theorem writeTo_up_to_capacity (profile : Profile) (capacity : Nat) :
    let text := unlines profile.lines
    let result := profile.writeTo (.ofCapacity capacity)
    result.2.written = text.toUTF8.toList.take (min capacity text.utf8ByteSize) ∧
    (text.utf8ByteSize ≤ capacity ↔ result.1 = .ok () ∧ result.2.flushed = true) ∧
    (capacity < text.utf8ByteSize ↔ result.1 = .error .pipeClosed ∧ result.2.flushed = false) ∧
    ∀ sink bytes result, Sink.Offers sink bytes result ↔ result = Sink.write sink bytes := by
  intro text result
  have hresult : result = Sink.andThen ((Sink.ofCapacity capacity).write text.toUTF8.toList)
      Sink.flush := Sink.writeLines_eq _ _
  have hlength := length_bytes text
  by_cases hfits : text.utf8ByteSize ≤ capacity
  · have hall : text.toUTF8.toList.length ≤ (Sink.ofCapacity capacity).room := hlength ▸ hfits
    rw [Sink.write_of_le hall, Sink.andThen, Sink.flush] at hresult
    have htake : text.toUTF8.toList.take (min capacity text.utf8ByteSize) =
        text.toUTF8.toList := List.take_of_length_le (by omega)
    rw [hresult, htake]
    refine ⟨rfl, ?_, ?_, fun _ _ _ => Sink.offers_iff⟩
    · exact iff_of_true hfits ⟨rfl, rfl⟩
    · exact iff_of_false (Nat.not_lt.mpr hfits) nofun
  · have hlt := Nat.lt_of_not_le hfits
    have hcut : (Sink.ofCapacity capacity).room < text.toUTF8.toList.length := hlength ▸ hlt
    rw [Sink.write_of_lt hcut, Sink.andThen] at hresult
    · rw [hresult, Nat.min_eq_left (Nat.le_of_lt hlt)]
      refine ⟨rfl, ?_, ?_, fun _ _ _ => Sink.offers_iff⟩
      · exact iff_of_false hfits nofun
      · exact iff_of_true hlt ⟨rfl, rfl⟩
    · exact nofun

end Greeting

end MiniJava
