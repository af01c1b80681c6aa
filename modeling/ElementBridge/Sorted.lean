namespace ElementBridge.Sorted

variable {α : Type}

/-- Insertion into a list in ascending order. Of two equal elements one is kept. -/
def insert (before : α → α → Bool) (a : α) : List α → List α
  | [] => [a]
  | b :: rest =>
      if before a b then a :: b :: rest
      else if before b a then b :: insert before a rest
      else b :: rest

def ofList (before : α → α → Bool) (items : List α) : List α :=
  items.foldl (fun sorted a => insert before a sorted) []

/-- The order of texts by code points, which is also that of their UTF-8 bytes. -/
def textBefore (a b : String) : Bool := decide (a < b)

def listBefore (before : α → α → Bool) : List α → List α → Bool
  | [], [] => false
  | [], _ :: _ => true
  | _ :: _, [] => false
  | a :: as, b :: bs => before a b || (!before b a && listBefore before as bs)

end ElementBridge.Sorted
