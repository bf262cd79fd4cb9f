import StaticSite.Fault

/-!
# Compile contexts

How deep a compile is in nested components, and which components led there.
-/

namespace StaticSite

structure Context where
  depth : Nat
  maxDepth : Int
  /-- The components being expanded, outermost first. -/
  stack : List Text
  page : Option Text
  deriving DecidableEq, Repr

namespace Context

/-- Deep enough for any real component tree. -/
def defaultMaxDepth : Int := 50

def top (maxDepth : Int) (page : Option Text) : Context := ⟨0, maxDepth, [], page⟩

/-- How many more levels of components fit in. -/
def room (c : Context) : Nat := (c.maxDepth - c.depth).toNat

def child (c : Context) (identifier : Text) : Context :=
  { c with depth := c.depth + 1, stack := c.stack ++ [identifier] }

/-- Fails when a component would be expanded below the greatest depth. -/
def checkDepth (c : Context) (identifier : Text) : Except Fault Unit :=
  if c.room = 0 then .error (.depthExceeded identifier c.maxDepth (c.stack ++ [identifier]))
  else .ok ()

theorem room_eq_zero_iff (c : Context) : c.room = 0 ↔ c.maxDepth ≤ c.depth := by
  rw [room, Int.toNat_eq_zero]
  omega

theorem room_child (c : Context) (identifier : Text) : (c.child identifier).room = c.room - 1 := by
  simp only [room, child]
  omega

end Context

end StaticSite
