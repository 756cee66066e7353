/-
# SharedCells.Order -- memory orders, by class of operation

Every operation class has an order type of its own that lists only the orders legal for it,
so a releasing load or an acquiring store cannot be written down. Each of these orders
stands for exactly one platform order, or for one pair of them in a compare-and-swap:
the first member governs the exchange, the second the load of an attempt that fails.

`SwapOrder.failure_legal` : the second member is never a releasing order, and it is relaxed
when the first one is.
-/

namespace SharedCells

/-- **`MemoryOrder`** -- the orders a platform access can ask for. -/
inductive MemoryOrder where
  | relaxed
  | acquire
  | release
  | acqRel
  | seqCst
  deriving DecidableEq

/-- **`LoadOrder`** -- the orders of a load. -/
inductive LoadOrder where
  /-- Atomicity only. -/
  | relaxed
  /-- Synchronizes with the releasing store whose value is seen. -/
  | acquire
  /-- Acquire, and part of the single order of all such operations. -/
  | seqCst
  deriving DecidableEq

/-- **`StoreOrder`** -- the orders of a store. -/
inductive StoreOrder where
  /-- Atomicity only. -/
  | relaxed
  /-- Publishes all earlier writes of the thread to whoever acquires the stored value. -/
  | release
  deriving DecidableEq

/-- **`SwapOrder`** -- the order pairs of a compare-and-swap. -/
inductive SwapOrder where
  /-- No order in either outcome. -/
  | relaxed
  /-- Acquire on success, relaxed on failure. -/
  | acquire
  /-- Acquire and release on success, acquire on failure. -/
  | acqRel
  /-- Sequentially consistent on success, relaxed on failure. -/
  | seqCst
  deriving DecidableEq

/-- **`FenceOrder`** -- the orders of a fence that stands alone. -/
inductive FenceOrder where
  | acquire
  | seqCst
  deriving DecidableEq

namespace MemoryOrder

/-- The order's name. -/
def name : MemoryOrder → String
  | relaxed => "Relaxed"
  | acquire => "Acquire"
  | release => "Release"
  | acqRel => "AcqRel"
  | seqCst => "SeqCst"

end MemoryOrder

namespace LoadOrder

/-- The platform order this one stands for. -/
def memory : LoadOrder → MemoryOrder
  | relaxed => .relaxed
  | acquire => .acquire
  | seqCst => .seqCst

/-- The order's name. -/
def name : LoadOrder → String
  | relaxed => "Relaxed"
  | acquire => "Acquire"
  | seqCst => "SeqCst"

/-- All load orders. -/
def all : List LoadOrder := [relaxed, acquire, seqCst]

/-- The load order of that name. -/
def ofName? (name : String) : Option LoadOrder := all.find? (·.name == name)

theorem name_eq_memory_name (o : LoadOrder) : o.name = o.memory.name := by cases o <;> rfl

theorem ofName?_name (o : LoadOrder) : ofName? o.name = some o := by cases o <;> decide

end LoadOrder

namespace StoreOrder

/-- The platform order this one stands for. -/
def memory : StoreOrder → MemoryOrder
  | relaxed => .relaxed
  | release => .release

/-- The order's name. -/
def name : StoreOrder → String
  | relaxed => "Relaxed"
  | release => "Release"

/-- All store orders. -/
def all : List StoreOrder := [relaxed, release]

/-- The store order of that name. -/
def ofName? (name : String) : Option StoreOrder := all.find? (·.name == name)

theorem name_eq_memory_name (o : StoreOrder) : o.name = o.memory.name := by cases o <;> rfl

theorem ofName?_name (o : StoreOrder) : ofName? o.name = some o := by cases o <;> decide

end StoreOrder

namespace SwapOrder

/-- The platform order of an exchange that happens. -/
def success : SwapOrder → MemoryOrder
  | relaxed => .relaxed
  | acquire => .acquire
  | acqRel => .acqRel
  | seqCst => .seqCst

/-- The platform order of the load when the exchange does not happen. -/
def failure : SwapOrder → MemoryOrder
  | relaxed | acquire | seqCst => .relaxed
  | acqRel => .acquire

/-- The order's name. -/
def name : SwapOrder → String
  | relaxed => "Relaxed"
  | acquire => "Acquire"
  | acqRel => "AcqRel"
  | seqCst => "SeqCst"

/-- All compare-and-swap orders. -/
def all : List SwapOrder := [relaxed, acquire, acqRel, seqCst]

/-- The compare-and-swap order of that name. -/
def ofName? (name : String) : Option SwapOrder := all.find? (·.name == name)

theorem name_eq_success_name (o : SwapOrder) : o.name = o.success.name := by cases o <;> rfl

theorem ofName?_name (o : SwapOrder) : ofName? o.name = some o := by cases o <;> decide

theorem failure_legal (o : SwapOrder) :
    o.failure ≠ .release ∧ o.failure ≠ .acqRel ∧ (o.success = .relaxed → o.failure = .relaxed) := by
  cases o <;> decide

end SwapOrder

namespace FenceOrder

/-- The platform order this one stands for. -/
def memory : FenceOrder → MemoryOrder
  | acquire => .acquire
  | seqCst => .seqCst

/-- The order's name. -/
def name : FenceOrder → String
  | acquire => "Acquire"
  | seqCst => "SeqCst"

/-- All fence orders. -/
def all : List FenceOrder := [acquire, seqCst]

/-- The fence order of that name. -/
def ofName? (name : String) : Option FenceOrder := all.find? (·.name == name)

theorem name_eq_memory_name (o : FenceOrder) : o.name = o.memory.name := by cases o <;> rfl

theorem ofName?_name (o : FenceOrder) : ofName? o.name = some o := by cases o <;> decide

end FenceOrder

end SharedCells
