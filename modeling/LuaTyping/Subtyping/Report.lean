import LuaTyping.Notice
import LuaTyping.Subtyping.Finding

/-!
# Reports of subtype queries

The notices of a query are read off its moves, in order.  Only names met again
and names denied are reported.
-/

namespace LuaTyping

mutual

/-- The notices of one move, those of an inner walk included. -/
def Move.notices : Move → List Notice
  | .revisited name => [.alreadyVisited name]
  | .denied name depth iterations => [.limitsExceeded name depth iterations]
  | .walk moves => Move.noticesOf moves
  | .entered _ | .left _ | .broken _ => []

/-- The notices of several moves, in order. -/
def Move.noticesOf : List Move → List Notice
  | [] => []
  | move :: moves => move.notices ++ Move.noticesOf moves

end

mutual

/-- The first pairing error of a move, if there is one. -/
def Move.error? : Move → Option GuardError
  | .broken error => some error
  | .walk moves => Move.firstError? moves
  | .entered _ | .revisited _ | .denied _ _ _ | .left _ => none

/-- The first pairing error of several moves. -/
def Move.firstError? : List Move → Option GuardError
  | [] => none
  | move :: moves => move.error?.or (Move.firstError? moves)

end

namespace Finding

/-- The notices of a query. -/
def notices (found : Finding) : List Notice :=
  Move.noticesOf found.moves

/-- The error that broke a query off, if one did. -/
def error? (found : Finding) : Option GuardError :=
  Move.firstError? found.moves

end Finding

end LuaTyping
