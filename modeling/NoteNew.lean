import NoteNew.Expr.Reducible
import NoteNew.Expr.Descent
import NoteNew.Expr.FindMainOperator1
import NoteNew.Expr.RoundTrip
import NoteNew.Expr.LongestMatch
import NoteNew.Expr.Numbers
import NoteNew.Expr.Faults
import NoteNew.Servo.Adapters
import NoteNew.Dpcm.FrontEnds
import NoteNew.Dpcm.Driver
import NoteNew.Dpcm.Moves
import NoteNew.Dpcm.DriverProtocol
import NoteNew.Dpcm.Opening
import NoteNew.Dpcm.Linking
import NoteNew.Dpcm.Configuring
import NoteNew.Dpcm.Triggering
import NoteNew.Dpcm.Accounting
import NoteNew.Dpcm.Levels
import NoteNew.Dpcm.Isolation
import NoteNew.Expr.Reading
import NoteNew.Iteration.Attempt
import NoteNew.Pcm.Runtime
import NoteNew.Pcm.Core
import NoteNew.Pcm.Symmetry
import NoteNew.Pcm.Limits
