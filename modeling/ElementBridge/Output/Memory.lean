import ElementBridge.Output

namespace ElementBridge

structure Memory where
  files : List (Path × ByteArray)
  writes : Nat
  failReads : Bool
  failWrites : Bool

namespace Memory

def empty : Memory := ⟨[], 0, false, false⟩

def content? (m : Memory) (p : Path) : Option ByteArray :=
  (m.files.find? (·.1.same p)).map (·.2)

def without (m : Memory) (p : Path) : List (Path × ByteArray) :=
  m.files.filter (!·.1.same p)

def put (m : Memory) (p : Path) (content : ByteArray) : Memory :=
  { m with files := (p, content) :: m.without p }

def remove (m : Memory) (p : Path) : Memory := { m with files := m.without p }

def fail (m : Memory) (reads writes : Bool) : Memory :=
  { m with failReads := reads, failWrites := writes }

def read? (m : Memory) (p : Path) : Except Fault (Option ByteArray) :=
  if m.failReads then .error (.other "unreadable") else .ok (m.content? p)

def replace (m : Memory) (p : Path) (content : ByteArray) : Except Fault Memory :=
  if m.failWrites then .error (.other "read-only")
  else .ok { m.put p content with writes := m.writes + 1 }

def store : Store Memory := ⟨read?, replace⟩

end Memory

end ElementBridge
