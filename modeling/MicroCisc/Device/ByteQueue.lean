namespace MicroCisc

structure ByteQueue where
  front : List UInt8
  back : List UInt8
  size : Nat
  -- The next byte to leave always stands at the front.
  back_eq_nil : front = [] → back = [] := by simp
  size_eq : size = front.length + back.length := by simp
  deriving DecidableEq, Repr

namespace ByteQueue

def toList (queue : ByteQueue) : List UInt8 :=
  queue.front ++ queue.back.reverse

def ofList (bytes : List UInt8) : ByteQueue :=
  { front := bytes, back := [], size := bytes.length }

def empty : ByteQueue :=
  ofList []

def append (queue : ByteQueue) (bytes : List UInt8) : ByteQueue :=
  match hfront : queue.front with
  | [] => ofList bytes
  | first :: rest =>
      { front := first :: rest
        back := bytes.reverseAux queue.back
        size := queue.size + bytes.length
        size_eq := by
          rw [queue.size_eq, hfront, List.reverseAux_eq, List.length_append, List.length_reverse]
          omega }

def head? (queue : ByteQueue) : Option UInt8 :=
  queue.front.head?

def pop? (queue : ByteQueue) : Option (UInt8 × ByteQueue) :=
  match hfront : queue.front with
  | [] => none
  | [byte] => some (byte, ofList queue.back.reverse)
  | byte :: next :: rest => some (byte,
      { front := next :: rest
        back := queue.back
        size := queue.size - 1
        size_eq := by
          rw [queue.size_eq, hfront]
          simp only [List.length_cons]
          omega })

theorem toList_ofList (bytes : List UInt8) : (ofList bytes).toList = bytes := by
  simp [ofList, toList]

theorem length_toList (queue : ByteQueue) : queue.toList.length = queue.size := by
  rw [queue.size_eq, toList, List.length_append, List.length_reverse]

theorem toList_append (queue : ByteQueue) (bytes : List UInt8) :
    (queue.append bytes).toList = queue.toList ++ bytes := by
  unfold append
  split
  · next hfront => simp [ofList, toList, hfront, queue.back_eq_nil hfront]
  · next hfront => simp [toList, hfront, List.reverseAux_eq]

theorem head?_toList (queue : ByteQueue) : queue.toList.head? = queue.head? := by
  rw [toList, head?]
  cases hfront : queue.front with
  | nil => simp [queue.back_eq_nil hfront]
  | cons first rest => simp

theorem toList_pop? (queue : ByteQueue) :
    queue.pop?.map (fun (byte, rest) => byte :: rest.toList) =
      if queue.toList = [] then none else some queue.toList := by
  unfold pop?
  split
  · next hfront => simp [toList, hfront, queue.back_eq_nil hfront]
  · next hfront => simp [ofList, toList, hfront]
  · next hfront => simp [toList, hfront]

end ByteQueue

end MicroCisc
