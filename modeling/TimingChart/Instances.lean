/-!
# Preferred instances

Which instance is found for the powers of natural numbers, or for deciding a property of all members
of a list, depends on what else a module imports. In this namespace they are always those of the
core library: powers are computed fast, and members are checked one by one.
-/

namespace TimingChart

attribute [scoped instance (10000)] instPowNat

attribute [scoped instance (10000)] List.decidableBAll

end TimingChart
