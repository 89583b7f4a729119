import LoadBench.JobQueue.Session
import LoadBench.Proofs.Fits

/-!
What counts a latch down. It is done on behalf of a job that was taken from the queue, by whoever
holds it, and by nothing that happens at the queue: an offer that is turned away lets its job go
without a word to the latch. In a session only the step that completes jobs counts, and in the
engine only a worker does.
-/

namespace LoadBench

namespace JobQueue.Session

variable {s : Session}

end JobQueue.Session

namespace Engine

variable {b : Backend} {e next : Engine} {label : Label}

end Engine

end LoadBench
