import Inet256.Foundation.Bytes

/-!
# Reading a byte stream in chunks

A reader is the list of chunks that its next reads return; the stream is their
concatenation.  Reading a fixed number of bytes depends on the stream alone,
not on how it is cut up.
-/

namespace Inet256.Foundation

/-- Read exactly `n` bytes; whether some were read decides the error at the end. -/
def readFull (started : Bool) : Nat → List Bytes → Go (Bytes × List Bytes)
  | 0, chunks => .ok ([], chunks)
  | _ + 1, [] => fail (if started then "unexpected EOF" else "EOF")
  | n + 1, chunk :: chunks =>
      if chunk.length ≤ n + 1 then do
        let (got, rest) ← readFull (started || !chunk.isEmpty) (n + 1 - chunk.length) chunks
        return (chunk ++ got, rest)
      else .ok (chunk.take (n + 1), chunk.drop (n + 1) :: chunks)

theorem readFull_eq_ok {started : Bool} {n : Nat} {chunks rest : List Bytes} {got : Bytes}
    (h : readFull started n chunks = .ok (got, rest)) :
    got.length = n ∧ chunks.flatten = got ++ rest.flatten := by
  induction chunks generalizing started n got with
  | nil =>
      cases n with
      | zero =>
          cases h
          exact ⟨rfl, rfl⟩
      | succ n => cases h
  | cons chunk chunks ih =>
      cases n with
      | zero =>
          cases h
          exact ⟨rfl, rfl⟩
      | succ n =>
          rw [readFull] at h
          split at h
          · next hle =>
              obtain ⟨⟨more, rest'⟩, hmore, h⟩ := Go.bind_eq_ok.mp h
              cases h
              have hmore := ih hmore
              constructor
              · rw [List.length_append, hmore.1]
                omega
              · rw [List.flatten_cons, hmore.2, List.append_assoc]
          · next hgt =>
              cases h
              constructor
              · rw [List.length_take]
                omega
              · rw [List.flatten_cons, List.flatten_cons, ← List.append_assoc,
                  List.take_append_drop]

theorem readFull_of_append (started : Bool) {chunks : List Bytes} {front back : Bytes}
    (h : chunks.flatten = front ++ back) :
    ∃ rest, readFull started front.length chunks = .ok (front, rest) ∧
      rest.flatten = back := by
  induction chunks generalizing started front with
  | nil =>
      have hempty : front = [] ∧ back = [] := by simpa using h.symm
      obtain ⟨rfl, rfl⟩ := hempty
      exact ⟨[], rfl, rfl⟩
  | cons chunk chunks ih =>
      cases hlength : front.length with
      | zero =>
          have hempty := List.eq_nil_of_length_eq_zero hlength
          subst hempty
          exact ⟨chunk :: chunks, rfl, h⟩
      | succ n =>
          rw [List.flatten_cons] at h
          rw [readFull]
          split
          · next hle =>
              -- the whole chunk belongs to what is read
              have hfront : front = chunk ++ front.drop chunk.length := by
                have htake := congrArg (List.take chunk.length) h
                rw [List.take_left, List.take_append_of_le_length (by omega)] at htake
                have hsplit := (List.take_append_drop chunk.length front).symm
                rwa [← htake] at hsplit
              have hrest : chunks.flatten = front.drop chunk.length ++ back := by
                rw [hfront, List.append_assoc] at h
                exact List.append_cancel_left h
              have hcount : (front.drop chunk.length).length = n + 1 - chunk.length := by
                rw [List.length_drop, hlength]
              have hih : ∃ rest, readFull (started || !chunk.isEmpty) _ chunks =
                  .ok (front.drop chunk.length, rest) ∧ rest.flatten = back := ih _ hrest
              rw [hcount] at hih
              obtain ⟨rest, hread, hback⟩ := hih
              refine ⟨rest, ?_, hback⟩
              rw [hread, Go.ok_bind]
              dsimp only
              rw [Go.pure_eq_ok, ← hfront]
          · next hgt =>
              have htake : chunk.take (n + 1) = front := by
                have htaken := congrArg (List.take (n + 1)) h
                rwa [List.take_append_of_le_length (by omega),
                  List.take_append_of_le_length (by omega),
                  List.take_of_length_le hlength.le] at htaken
              have hdrop : chunk.drop (n + 1) ++ chunks.flatten = back := by
                have hdropped := congrArg (List.drop (n + 1)) h
                rwa [List.drop_append_of_le_length (by omega),
                  List.drop_append_of_le_length (by omega),
                  List.drop_of_length_le hlength.le, List.nil_append] at hdropped
              exact ⟨chunk.drop (n + 1) :: chunks, by rw [htake], hdrop⟩

end Inet256.Foundation
