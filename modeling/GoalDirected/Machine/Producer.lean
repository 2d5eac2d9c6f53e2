import GoalDirected.Machine.Activation

/-!
# Co-expressions

**Results.** Making a co-expression takes a place in the pool, gives it the next number, and copies
the creating frame. It runs only while a consumer waits for its next value, so its state between two
activations is its frame and the chunk to go on with.
-/

namespace GoalDirected
namespace Store

section Defs

/-- Makes a co-expression that starts a copy of the frame at a chunk. -/
def createProducer (s : Store) (f : Frame) (entry : Ir.Label) : Except Fault (Value × Store) :=
  if s.active < s.limit then
    let id := s.producers.size + 1
    let (environment, s) := s.taskEnvironment f.environment id
    let (copy, s) := s.duplicateFrame f environment
    let (frame, s) := s.newFrame copy
    .ok (.coexpression id,
      { s with active := s.active + 1, producers := s.producers.push (.fresh frame entry) })
  else .error (.exception (.tooManyProducers s.active s.limit) [])

/-- The entry of a co-expression in a traceback. -/
def producerEntry (id : Nat) : TraceEntry where
  procedure := "co-expression #" ++ toString id
  args := []
  coord := ""
  offender := none

end Defs

end Store
end GoalDirected
