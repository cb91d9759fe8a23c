import CodeAtlas.Data.Base64
import CodeAtlas.Text.Ranges

/-!
# Tables of characters

What is known of characters beyond ASCII, a table to a line of a packed text. Decompositions are
those of the characters that identifiers are made of.
-/

namespace CodeAtlas.Text

/-! ### Tables of characters -/

/-- Decompositions, combining classes and composed characters; characters that begin and that
continue identifiers; upper and lower case with their special cases, cased characters and those that
case passes over; characters that can be printed. -/
def characterTables : List String := unpack [
  "eNrcW2uWnDmK3crdgPII0POHFqPn/pcwgb7PIYcj0+mq7p6p6eNuuEJwQUhERVaWay2B0Ir4Bl+MuIFQDM8PsRb2IWlL",
  "3lK2TFtWcOEP4Qj+1DfBfWHn4jcX/TaHlPAbXoKU9I+vkcu1MqK1OrDdymwdcKu95IRbGZpX8Ga9nRmXupcRl7qXHbcy",
  "tH5eSlHDN5kP2Wsh79zztZDvqSJupWWc2GddchlE3f9Cg+4c2l1X1Rrqrxn28uRnTfjW1bP/etS9bBFb7mLnn8eymx9h",
  "ahSH8W3vG26lWcZfqJDW14/k+9ivd//W3diKW72e6rOnfcr8/EUl0NvJvn7vEUzFsPsQ0qRbzWKo/mwgV4zQh687xn7E",
  "C/ATGUr6kuxHOM9p/mrh8drE9Lqsv1tufX8GHHjMhAOPWQkOPGaLn2Ex4r5mj5f5wOCPxelt5/Vaef9l+TZ6fKc6kNxV",
  "4mh3pZxuEB5d3x0Hb/n6yDU95XMie3e5Hp8LBv/yJubLqunB1rVcV4lEuJWh/i/s1t/ujr+/y/whHHSpSifuLLUr/HIL",
  "8WGIL2NA/fXjNXz9AuSY5ZgP1xfvZHOehxJHMUSgNbXajgRWCgSNr2BwKjSrbkZEeDAN+G6ohAYuJDDtunJbjFsgLuPH",
  "cx8VPO47/VmW8KLdlnQGhWq5hwL9ltvvjam/hPQTAXNRnwSazlCEXorg/IM9gQkmKIFKQyWqJ2fQgCuGGLHE8zUj7V0N",
  "192xLb7QlcJcftqQgFbMBdgWthtRLEY+p2K5qQz1dy5KRWg/uEu6WoxfN/tWsxgO7x/gCbfSiWw/70upV0ra0nT52d3Q",
  "eo1+/8Lx6l5f3Wv9mbv1F2euX1O9/ZOG+ivzL4Y0Cz2S+8TIrXT+CF5gH9KBaSuztQfLXrpVjMKoDlvFtZWJY2uXSmoX",
  "QTHkNiIqRJfNh8I+fGTpeDhuLUW2Zn0vc0M6Ev6Wx5K3dFuGXvKDpk3YjzwiyO6bzE2dVXIZW3tXknzUnS9szVIM84a0",
  "pb+319azFqL+0bxetv1ooimaf6ZoGrelxBIfWyNCQhH30doEbWlom2MvyX50HxBTifmjD69jsbV9yAAuD90ZW177S2OG",
  "KJVK81A+6oVl+Ri97pDRF7ZUi6Kx4H2J7mMKI1mlmI3BeR915oyHoRJCKDl+rBZRS93aF/+pHvvlr+ZRdYhW5J156VU/",
  "lslCFxf6dZ2KcXztcGH6i/nCKNl/kOWJEYqG2kcw5w9q4sGFvwWuuNuSy1uc/AD0Y0Pu9cxagyUkD5Mc2FBhkKsgE/VR",
  "R3BJoCEwNBgM2h6CuhHNBaqNdfqqvTdp+RsZWjocDowxYUYHzWuPar+Cwl46PGCGoVqnRmVdL5DRycpRrhgHI34g75Vc",
  "UgbWRh6zxLifOs0Gs0tbmiR4UOhKG6DUDKfMytBINKkWJ1aXSZczwLDWATJSGFeNFWbEjcYE1SwbmwciGCbanEwBxAnu",
  "sSMxfgh7sFWl+d9/QBLcai+FcKvtzPH5NeeCf4Xj8x8geOBSN5U7370uaJ6YcOBbsGqxuJV5lhhw4Fu1r/9k+P4s59P7",
  "87NM3EqpTjlffq2meUz0/QW87bLswg98C3pv8WvCrw/8bTu+TyQn2QXNEyccqOY/v/nvDkHzreq/2LU/egi0tw68zX3j",
  "A58ZFR/4rzeX7wO4t6f/Nhhf34S7buLA9x+031+EZjr3cy7idUD++uM6sW+7L/8m5ds54a37ZtLTVrDK/QMytwnizeqL",
  "EX6/2IxL3Uu+jnjgMVsceMxKcOAxCw7EeRWMA2/vcKU88JgtDjxmTXngMQsOxEkZcCAM9W96cN7D/0lLqB+C/P6M6j/w",
  "BqldKQ88ZosDj1lTHnjMggOPmY/5ux783xTU3z4m/vSFxSKSHkwC5XNbitJca0VPGz1t9MPm+LIpUup/ExO7v0Ek5e8V",
  "IIX5H9eBf2JJ4X/3UsK/q+67BPdAJ/pgUny83T+u8T//lssdDP4Chzf8HivFULpz+Wcuf+o89nt19uhlb69O3WfvuTJs",
  "/5cycfivO5Lwf92R9D0HtVmn8rCpfDJwUQvDvlb4Gnn5w94RnOCK4b/E+dkUHU5XmH9JesZREUEOqU2KflOoL9y/oTM/",
  "fwC5P2E+YQ6hcPpLx6+HA/Xt+NEXI85iFg+iYgYcKjJoEgwtAhkpAn//C5kQihELX8iN/RHDWd1gYcEWbcGMCQvRFT/2",
  "J5zhwmBYxJLARdzSnVstGC2qbn7SG5YNjcarP+8KfCAYHyKkiI8wA+owoOX4viPYbuVBcUfbD5e3uLQPGMd29IZmfPiE",
  "9bpvLl6TUUH9YQ55i0tH5Tu2oxU++OLmO/ZXvrpGMQJDDosLD9vAPRf2096dJi6GeWX9Tpe1L/9pIEW+2oolXsCqqnqJ",
  "/9Kaol7bZarF3+SG1JQqRmH5bz+2FJcvRJ8pV9oFjNPx6AnC+nZoNUGtMDXtd/KAZLiYmh/alzpgcrhM5EDtAfMDbmdX",
  "fIKhHWdc37oJPBgeDgzTBjqBL4/OkI10W23ugSIcKiL8ld1fqXK9HAfcBhmCCkH0dhYzfARjSKnCgqTVRu4QNLgyPHhA",
  "gjzIhoMjq2frHTXNiFp04eFGjiXl1mDYeweOIzygZRgaKyrMC74JXGsRFsYF1yApPaB0VyGdkOoEuSjI1BGaXkgDyUTM",
  "ShHSgFCGtAmxHmT9wuCBlCKMa2HBLQHFtBApghwxKC6CcbZPEOcG8pMhF58ul10ITpfZeyQ3ELzAZwaNwTCOXAILgTiC",
  "aAYEuxBlwI2ITBXBeviAmAXZCZwMcNqNCBNL4JgQOD9gQ4sNhqRmGKEVEdiDhu9wNGGmHjskkKyEKh5GJi2IjlwjSI8g",
  "8ZhsQTaBEjkYJzGDR8swPOuCIQtO3kIqI4iAODmYujwMp0aIImC7uja+e4w64Vj7HD1oKg37DPbTaVOkY80KQ5Q7aLYF",
  "E70DxVp3zxactnFWwXAJIRAMzWXBsvQJCCeYnCpozQhDy3kQdS0mtAhuDcGCQksgFwJ8SkhBENbQ448KcgNeCD5mhJFR",
  "JSNzB/Wkz2nA8YDoC+h6Wj2LawSW2WDEzgmhjmjBuaKmDOYAcRbeERxXcGyYLcJUSWjiIaxsJILUwVRB3TZ9SQ80Ewy3",
  "SSDukBSQNKnNFiZ1bZ7LhEQebk7QEHBgkOSAFtGEUDuI5oTrDM8YOgspDXBlASUb4O31WxZtF/sG9g6NHDwh+woXMmLv",
  "cNFhtoqWLBYRjGTrwasGfRQ6+m4xYoJ3E+QbfBggfRjEcLrf3NRBXASynSDOVV27ga7F20FgchaGV16gpv0XNG0lrwXj",
  "nB/QkUg+IOvwSgNpiTIQmUCjI+eI7AOIkWaDp6s8AV3DUPMAjSbgnkCk3bI1wzcHdglGok0I4kCOBkx8CO9BkWGyDihz",
  "BFV9l9JzgrgYHvB634Ke134fVK3AMHkCUc4wIVTw/uAIc2Faguld6WpLMCMLXLKQoo+Gy6T6wIZcDtqSDqkWHBnMiOCq",
  "J437MAnaGi7B+4d0M0CKdxbdw5W4GAPc4VKH6SPAjwzjos0gyQgBFDuoIQyw6wgZ2pCREBKkdVQ4DhgODxkcxA9kQV2g",
  "5aD3rY21aQe3AVoRLizUAe01EgLi9QXGogkcgWSBtb0ekkBCSqjPPHVY0JhwLSMFndHtkSvEg+tEYoTaQNQh2u7YA2hy",
  "zDDU7QjaMpHFkKSvZcAorw6/NJCLEAFX0QGAc3AZrM81IxPIguxED5BaEZGtuhA36P26oBUZnsgMx6Bs4RMkgKwD0dQ+",
  "OE3j+DplirtyQxY+YvU9CUEyjI+MWBGvkrLH/ogFYx8NlOEDTAWl+3endqE1TIucQa6iR4gbyAOSKqgnOPUCcYYm4KGF",
  "GYEhguvwBIoTLBYkFcQRY8DZgBARBcmDHTrEgkeEU9KU6oQJaJlgaCVJcLGBCUxMFjVFMFvNMZb2qoFjMXlx+gjh+T23",
  "qwj3Iuh6fEQHq2IUb+nDR/X2wW/ZULfFPFQYCCX4jz2ZhfIDxN1PQ/z8dTCXhAEGF/Pg6qQsnVW2rusnYpibQi3psoP+",
  "QHLh7/ePPta/wGFIz6mj+VALdcu8paGHbXRUgkWF3X/k1nxrE27gfzVw+9WVn4he2LSlFpct/NjmH1y0I6KidIeFW7sn",
  "8w3yCxfVj+Ad7JaGnt5yg8tyfMBcDPsfu/WlFLr+M5y7qg3iD8KkiJTiI/AD/4qGf0cuvaMeP0HhE5Te0bC/Qy5/ihI/",
  "j8B30f1Z/ng6+k+Cq97n7X/78lSp3renev2JD6nPF/Zx24/PwWfXf5GF3xjefV6zvOc6OP7hWcYX9gj7KYN793+v9j/u",
  "826XP4g1OmXRgi6ZtorlngYh2BvxJ88pfP2wNHJHnZThJfGf+NCf+ITXgNcb+/p+vr5h5/8osWir/sjTfj2bPD9pa/xm",
  "NiN+v0uKv5m+b+fuWL6fvr85d/TtdLuz+/V533f/POpYooX8zv/rezq38sJ+cPrCvs4JL/sLgzsYpj7UfKSlbVg/kLcb",
  "mfwyWJ/Pg4l/smHoC6ovo3/zFoWUTxVvSZf8f1Ts1xE7d8Ql5TK5N196s1yudHOobrBbkhRRd926Qk7wQc/deSGVuvtE",
  "44km+NV2ZnV3w94oI7zk6Lq60e7dO8uveU8t5/Pj8nuis2voHOSgO1095R/0uyQu47TjIPqq6MNyvuAc2xcogz6JPbvx",
  "2wpOza8nr0+Un83vL+iN+dMLoXOF7znervXwveaQsvdfHk///dXlQ/kJyp+2y33SasOsaV8upb7y3LsbfcnNx3YqfLuo",
  "DH42x9ATHuM8JTwJw+nnJ7vGHyhP6E4a97ys8wxMe3rWJ5Lnbe3S5qmyX0HnMR4jnyCqz6T3vqK04ankZs3Ht53LqCeZ",
  "O9ZzQyRPNs7l+iB7OA7GeCJDTfH9/7hbpWHp+nydmvhuyYIhezlKfqYVbWNSM7bUdJtp3XvubscPnCG1GD8CLCiX+wdY",
  "Ln5eH7ShaJIJ3npd2ttb06218oXwQAL7lO6WTM/F+XsgdkuWs/UiDcv50fZGKums/xxp3Ls8Hv8ysoiw/w62t/osjM5Q",
  "vJr6htwnyP+KbknO5GICOSRDuRDBF5pgXTB6EZsJRu/0/iN1K8MOkmH8tTx/S4E/+SO3hy+MBNl/yLgiCE97hNscymho",
  "Sb5Wwf6tX6+5x65PkIcKT8kPGatX2lkFhqYO6wO4AC7eoqYumqvT+b3cVJcG85AZAe4B9wjr/7Y9OlD0MOJB42pDgJEJ",
  "Gj0nGJIYA0z1bLcpwjxUjFCZdDHt3HEUJwxbD7ZZd9NlNgobBJw06VXeQ9o9X5xnBhfz0HyxMEy+ejISaAxXodc7bTF9",
  "Jv9BZFsFF77RKvVGSUrqD0wcQbdm6oVJo0QmrGofQWEVisrgWoXdWuf/QgOrl7Ue2NcFurXEUSQqfxaLVvt+cYYoLQdS",
  "zPbSZoOgazZEJf0wp6efufYKQ4qDPJA8pGI2sXjQA0/wA7ESPWQ9NOvndOWikk0QS9gB+ZqA+YsDG6eMJcA9nNxxuoo+",
  "tP8Jw3hAG/SstpCviLtHTYtI+6wOAkaH8ffztXrWf7BfoQ7RiZXa9+jaz2Sw6upXhFeCQhmGgrJUkOybNjpUFgEJpmPA",
  "EEGuu6twYAQwGOLgOowSCOvQuAinjA1SDFWF4zNC9Z04fCXt40S1+kIat33CQzAMCcKm/xEpunVHqbZ7t31Wwj6Tidq1",
  "TcW/LQIMUSgC1o1Y4e+TU4Ih/2wTm12fIfq2TaFoWvfS7L/OMsTr1QZbsbqNxU07lCeDGk+CoUad4SYGXERMoKUrswvv",
  "QqBBuaufmwMRZPd1N6n6foYNAup1goMa24RR5bQiHgk8LTLYWa4wLGtWTI1jd/0KvoE7NlNg0GhaMzVQ2Ed5AIYwktab",
  "UcGwsKAWqp4459Z//GU6D2oxOU0fY8K25AQTgpbMFlLhHajCybYQ7I5S9vVAGqqHI4LpASwwLgyEGfX+7T5ghkmMqhbE",
  "BmpdkmZsi+GVxSHBaYHDBTjWvb4meKHDuIU0tQsxYWpPOiRAvWeq6jqt15LUmdpir7ZFGdevuowIwbCrBHZjYcKzGkGd",
  "vJbUbSWolL2ICUZA14wHD8Ne2+v7BDfNwx2Gg42gmZlgHspGcBAHgehh2LmeNKfLDtSdCCwMVZKHYh4LqoNvoJUXgRcz",
  "DFuOCVl3UgKHFiGCCmYkZYsuajKwXhT14JSzBzuQCA7KAJ5XfpiJBt6t3bfX4FgvkgWxg3q8nkDsC8YRgrYOQfuQ7Hju",
  "+A1hOMcGrrLPT0tLhOFq1TgFNPQx56nOlSNIR7eqWxMLbjEpTFlbAgp1QkA+NJigxRHBSB9anEw4BMiAaaDeo55xpVjB",
  "vRFM9OgD+/La3KPWxoIJC0tvasQIHtXrSVxEm+q32vbbNzK7gJfNoD5SUPvwAvMwBb0FBx773kmzzyE6YYlBYy51nrVD",
  "h3efdK2BuSelLnCCZBgJiha0ISvn7TYrVoMsGCF5ANL5cspjq/LbkUDRQxktxO6gnhA1e4N5KOHkIdwcRGACRIfKaVsp",
  "y7SgQTQ3V4+gwXbpgpJgQI8ypCW1SEr7BoerFmM7uVyxL0BnQ9zKCueAhfi0trffr8jDyP4mFLR9IxJreFhJF97pIjKD",
  "amclrk2jR84Eikj6iMi6BB3e2XVnqRs4guqPr4pVc4H10JEIEj0rdB7egklS1DStL+hDsbo3M5i8E93oQ1sxnNsUDyQB",
  "vsNIah2SiVChp196y9xg1Wm1rB6zgynXvE3TQ7ueK4Op+stYJ4xUYUh1CUaJQJP3M5rMortBd3uANDg1NCIwzeWuqaE5",
  "J5hWshojfuEhu9uLmhE8Gmi64eGyGl0X0PSa7qEkgRrPpYuVKqSPAb+HZyXIENmfHRls+2JouY4ZytQoNwhGrjCuiUCm",
  "jnCA3iLrE+W1JhgPkEEz+QCjKkISXICrMKkiV3DFnkrroNMGstu/gsTD5ADDHGuFrB7AYD3BbPuMMwTQzD2pT+4LDszV",
  "WxCTmlqIcHZ6dDTwvmAmJKXsyBHGk7ZVh8JRXXBsK9jCPECC4xCxs9mdbWSLqHs1w3H3MN7JAj+EoGkNwjUhw8l4iIE8",
  "0BtoWS8ar/NNAb7Cd9AiDYlxv6xYddh1XvDAc26TrQh6z0EnSr2W9xl+gK1aacCoEtD9o1ZeML6B4gBphjj9dglLL2kF",
  "uM6s9q6NcJIJTq/c7KcsORJoVWYMr/uxdiS4ESpoda5qyz7hIadT4p4a9LJAa6SxLcPBuKGtHCsgTi1cOoybYsFuBYZh",
  "azWGJ9qA8ZYXaMHbqL2XEGHYywhg7+wA2YwkGqU24yl4eKoCj4iKCPZgG7r/n+auLVmSVYX+9yj4P8E5ifj82INJzcz5",
  "D+HWAq1HV+9+nY57b3SUIioiIFIlsfuLbhvySC215FZ6bnYIs4XSwpkI3EzK9jGv7R1tGydPvWXRjU4PuDD7wmyLtcNq",
  "r7kvHMlXOHWcxk9aw0dK5OjQtvhTb7/wgFa44xJwqGd7rvrW8hmVFkasEBQBhaKIKBKKjKKgqEZGGmYaKTFKBGZQYA7U",
  "87RuwKzY7vL0QlAE0tsYEHZe2lfdKBRFXNw/5Lmk862d3mYkypmzIfVVcBPndfjG9BA/cDten9PnV3v4irNPtITyx/Ci",
  "vQvntyG7w21uKHCddZh19HpMxvR45XPN6z7w6Wgcn0jjvRVeSL6q73W/n+kMbBUoqdG3dJjr6lVH6LkQ+XqH6vba/Kiw",
  "wSaU833wyagMLsdCyKYEzMl6gwvlA0ipD2QIFI/F+7AqrFIyaf0QM1lRoEQDZVZrqePuomt3WC+jUOSjGK5RUqd5bFN4",
  "2pPze92Kdt6Kbvgx7My2DQf4xWiO8dSIFXPTPG9OXIXjd1xD4O8rTF7MxwULsYfy3L2OWzHutd9GDQNjvIGtYXsuqRef",
  "/O458QuUkDPqK8Q5boD225LvluruVOLsWY4+xDfPXB9DpL546fezGY5nAcnDIzP2tPrSnWN5mf02847r1zVlU6HtLDyd",
  "Twh9srWcdTB4MR8p7zegUklH8sW5+cw7NwsQSdBYhk2ZhQwW79HdD7N35u2jEA7JtTmlF4nrbOVZT4tNGF+g6guHNpNu",
  "YemG84t2dJzWPtWqljk6xeaIaSRt3UxzYayw52dl6LnEX5d5tJ0/97tL5vqZSx52TndsBfYLAKc05nUuxQ37AvIAPzcg",
  "9zms661APyS+PI+0KYV1mQ8oOKK7+q7jnH6NCRQsXspqWf92zqZs6j4DB+oAYP0KKADas41X9y4LHY/ULLrRsfjpEBXi",
  "w/2AjKOfLMnTmHE8AUfDNS5T+/HVP1xTBS1NGR19roDl3YD0gZj1imvyMpHiwrhrNJ3LavLJaaqofBkbF4hyp8SJov2I",
  "iWVIDg4KxEWSFCtk0sBXIwmNI+wilFtVWEjK4Eixcoi7pdzv58Z6UOgHt0aFj+358QZUd4Jnz7OJT6TMAX7qqUfayXWQ",
  "dN4HHeli0KaTU6DjaoNrO7/sO3VKOD0Z8jhRjEaJO10cqVKgGjgCbStZuj1qYLCxBAjfonhP6EmkVDhUbEggF6VwcsDO",
  "WMCgcbaxUGWhzoGUBB32zZNTpQEjDRvtLM5ZooS8e5LKUqnyDmTB2iSBAzw7a8IApcoN1C9KXOAb8ElY1gWHQUIni23i",
  "AgfUOFF6Gcny+GysYBh7F+Hqm38dGW1p35RUGveV30ddc2WYCOgkFyoYQ88Us0yldpJCmniK3HV0gY7LTbHgRV8NaHOx",
  "sPkeJmPhznyoLnNYTAMzjU3OtnQhG4hDArmG6wafDjuDkYKN8pWokwJFkiEoobg5N0oCsy4RukfQLhCzaSCa8gMlHnSY",
  "ChOsltTMhCUOk4hCdBMKdQHbW9+JevXHGzbzZcslUhdwBpOCmdIoc9ztyFZ2UzA7kFsxpmpYlUKkRDHCHqutjnmJOo6I",
  "wlht24NDpwSqWiD8nTVSUkonhxM7K9Zx0Om23k1zSmHnQAYp2wI7tga0HSk3A8rcL4rCIrYTDFlAWd7A+MGqy8SDQZEV",
  "I03EeeJKopNEgMkEIlAfBk1ifIES9kl+sCrtpfIZqUz7PB6a0kIVxLBprPy9TygQ6247jaSgD+UU4ys101x23SezB7lI",
  "hS8Km7A0F0LKdUAh4TBd3mC+oA6SZLIWlwSSHypXGIixeVG+26000PTz5odFTuj6YhXSC7YCNGLEDtIZTMugagscWCOa",
  "1XerEQBVo1bAhGQzbRVTg9g+lex0Qcy7mfwB7fnnITff+kGFSwBLoe9KBwgmtshpA3XsOyPC5UwHR1pHffiZfPJauVMw",
  "n1z4aCQmBYWHDI0blQoG7/ZTDgpmwQXFgGIVoowPTt02I3c7QCjWapD4QUHxzBUzzFC2AZFFMK4bNHnC/jMsp/uxCQqP",
  "5Vx3bgeJ42ZRqLFi/zsWeDjQ1zZMQRTGJyBc3InhNjD/FTPYRrv7aGwqu1J3297aBXDGWqNYsPuC4WJuYHnVAUaxKwOj",
  "MS8dDk7TfT7cJJyqXbNaWYFAYb4wHWDNaF+g0qlhHugKhRsqgpxAtRpJdxgQpg4LnOv0GzBxuGwo8OBwwXRJzBVGI4Sh",
  "KS3nOAXW3IJD+c7FpGZT7WJFg9WOFe6rcAEUePoGKu6jkuNJB4z3nJd9QOTRdwi9JFYcYCxJ6hLziwN+mNJlvIRM4BqH",
  "q0PzFZsZOOMCNiBJ2apfXJEkTNdbZDEPs/JzmtYKlz2+VSikn5Q21tYoF87mkIfSHg/OGxQcw0nXAdqZgoBxhY8SGxmt",
  "FDdPu1DUrtRI2UynC3ZYBddJpqg84KZ8Nyzlgh3HAyoG/+GsrM/RRQgWF2ENqFRqp7YlzjtlUOLqoUzJhVOElnymugaN",
  "VqcwKcZ1K5a1RAdieoboqGRzIUsvzp+DChVNaMsZYI+dTWkS78LpFK/EebnVaXUjwjqiUqXYk3ft3k9ouN/3iDKhhjYf",
  "/f5vte+yU//M+bLN2y16QyQm3vNx2anZTJvHYWe/Cq75QzcaYeMgB6VTWTTuFgNjke9GwbjMX8Jgju9BMBjRrwPhxmE8",
  "+2dqKzCW02LZiJVyMlmr78ujYtYdTj/imCcCQbWzodBveo6Dd47m+LYHgfDtAFi53k0I68pkursMsLfvxcNuU94NL2RW",
  "fSsvGpj6WYDsXLmK1X0rUDtnR3/mmR7cBg8Zn+nZpf8TQXTiuEZAJ3Rxw9TxGlXrnXeFD5isqnM6j/83Au23eYUF8FIE",
  "nfeFFIVba8bguY/OaeLfI/BICb1+DLmRGkFFFHs6B/UtLAdzOq3Twzz10FycvUZmjpRcJwqhqq3uzZ0U5gQLP0j/cHAO",
  "RSISvH46Rk9+xw8weTyUhlBKTT7ionY8gp7kIfVTxB7MCrpfMq+Be2G7twRN9YNPamQandT4cOMIHOGVm3+POriAGYWP",
  "bxbsvAbyIm7rGe7pz0TvUVnsVjxWFK/xViSzcAm/GtDX92B+Yyk/DuZZcK1nj+ghr0dE7yf130b10i32uKZ9lkAhfxrQ",
  "u1+UaBGjq9uiLMvhcrUE9Agox40uaNYtwoJHLGsTMvrrCtYv21P/QbAOQJzAz8bs3H8nYvezckE4zmEIX8fwAtusMOjk",
  "R2hwqr8bxNdGVVcYbwHbSyS/U/4kkjdZ/P8F8zMuyQ/3PcA9RCVvcf1Bsv9kXO/HX2IBp8bZS3wfILgV5a/4fueYgb5u",
  "kHaqoO6xXnFH0GBBmK2kGB3RhtU8RfkhUsGu3+N8hXKM1ueXKkZ6R7D7MHP2ywahzrB4dnIhF85UsG3uhTWZm5MK7SjO",
  "Ezyp2bf6HrSw7Ob2E7jwrwPgyaIcyV9/HTgMUHNHprPiIc4aIgNOuVHD9LevBDhIaEIJDcTmVg+K+9qvhacTrOTHKa2u",
  "1ZE82Ab34Ph3vzUEox4XsH4kclejtsX9218gEjuNDdYq61cIuv7UFwl3HSEHFy7CF+jWHEQzoeN9GQQSSPXxP//SoayC",
  "qwLCS4AbXSSFoxl7TILR51x4I32y7yPDNKI7d7seQNoE1Cie5VtfVQaQO8duhhv38t/5wnKoLbeVX/7WQvt59Mzn9aWn",
  "f+SvcBZzM/kf8TBsAnLrKxbnnf8Yazf0WcGANZXPWYfhgHdgHksYNn8o+r0baIpWYgXD/JUXCqN3ReOvGiatNSmhXATe",
  "yYGzv7RSXoQgps9gcD1b8TJJOrm38QgsrSuuMc3ZYIHQdr3mwMTVuh0t1wLGAk6jewSrBqzGgIMCqt2r7hJI8aJovavd",
  "vR+roR3q6ojWcYhT1zval21XWRgh9RHBOw6fkRydqRr6LN4GPzZNSbwdfeHd217FRMLWbt4ulNHq1G20JBIHkOl8g+AU",
  "xtRdXAJ2ZYcLYrfXOgDJtbJskCFRro923ObSUwPq8tVmdMPlrWyVuYZ813jKXk3jtkZxOebNbWCVieWaa/LlcwIHN4Sd",
  "dZ2BcacNY0qnowOHBCY26nHnsN8W68MiygmFq3Ey/mq1BStuCweOBUQSnmBYOJ1AGhMILujaRqDLoH2LprLzzCSO0UpF",
  "uTnTGZx1yotb4YJBBI5Q99X+Cj/4JsgXPIjHnYRxkiFbwzjfGLJNoNyBk1S9jw6wP8B+mJhr1tF1k5uNQHh7AdqWH4iD",
  "xfp2KgigLhd1uHuEsIdO4sDDYZUn9XbOboqNvXbSBwcDRga5CeQFlCZxObsbJLtBtbKjIqsDfbkork+0k2NNW5605e1h",
  "Hmn1LzbzGn1Mc0Stuz0PR2y4lWOjpBUhudtpHIgrAVeqCAIdbIN3QAW+bwF5AeJA2SJr8MPVx3m3/ZSq3Btl35WDzQhf",
  "jusj6d9JKe8fIbe/40m7/T97wf7LPdm3D43X038k8zHuDTnKh7Tt75QC3errg+N52P+DIT7qVuut3m91mPX6/zB6/tDs",
  "f+U3fDz+MPgDlgccA1IgpOcb3Cy56TdrLv+SgLT/NQf6P+ZAP2KfCBz7tmBHho9u6pKPDbXhEmCE0h8ytD3mqi74nHPP",
  "78wN0+o29L/92emFA9xhe+9jsdCyt/iNSTJSejCX5A7vkzsAn7B39C1+sN7sM2YbEJtXw6t8R2THHX+nCASq4yNecgOy",
  "IzTNut/qfeL5BuiBZBPJuOVxiS3AA7u/4Lii1crnrMMAYC6wNBLvN798WOrZ6v1r2K2FBqOeUYuHdvEiw+1e9TXyMW4G",
  "NTN2OWSOiE+45CPyYsKbRvLR0KfGCz9He+H26E8riMc9a/w7zLJNcSwA+GeCnMWDjQpsvqNrmIHlXGTdR7N7VxLH1gfr",
  "PBwbk1cFQY9REGgK0GS74XqMVEDCflUC4HKK29y4emi7VF4nENfFDV5nJDCeeChLfTy3IXzharf7G5CnXwbf2s760AmC",
  "tDHlle52hMjBoyCH/WZdQL5jDuUI+naryQw4ausWO/GKnRySKNx8YXTK0T30mjwVcE4rvOqr/Yr3YOYJLwt4r8UHWB09",
  "+rXXbosnV/NlVI50vCDKRlatcdvCn3O+BN9KOjyA2fpFYkDMpmnEQSdfgCAB15IqSwO4U4FarhlaPExtfQ3g83RWPc5/",
  "nCVeX1TYvxg45lrA6cqaJtLY0QplI4AynNfJRpQWT/ceK0QCVCs7KrI60J8OkQWsy9jT45QkHI9l+SyPCf4lx4FrAX0B",
  "soA4B0uYmLA7sL6cWDjF552ubmuqGoC4eR13VwLl2ZLDmqmE4Sqw+CtzwLAVfznYDt4BWfy1gLwAcSCfnXWe4H6efthm",
  "/OUNj7+Eg80IX0S3j4w/c16+RLknYej2lpM3/He+xOMCaqchrKQ/n5S3I4rsUl+eczzn6P4KU+vLI0YU++1s8zcXoZz/",
  "VCaSbCsByVMXJ42Z/JReXy3k8nQaDaxKRQqXbq8B72lJpcnTA2nFAxb4MiZAfn9+Oxj+S7L6D9q2cXxtv6LMH+vjtt9V",
  "EveM3iz3H7dL+sFv2nnE+2/Ffb9VF6WUBXVOVf4vXvWbG0w7A0elch624VV8CYUKDQq2XCUIOc2kw8r9src3mBZkeg2I",
  "bYNpha8fvMNBgxN1SAjU/Odws6jy+GENNiCXvY0P3kkxPJGSNHvYHAxC84m1WB5KI63giQslyAOE6STZSLv/iu65K9Jd",
  "vrtzvB6vbbVbNVZfNH7TnGS/E4OSGn/Nlh62e9KTDlKlaBxwmKatjzGnzywwuUnwsHVYXlg7KYJywD7MrmlwpewP9bu/",
  "bncMNJGSVoZNO6eZ9/Vkm8sjddBV5AsFf7k+DVcgmnRRyMLYmaL7tB2tAm7IrK3ZK6ilmZ0cSSNFkIbll/kQvxOgY7gB",
  "d0xzHtdjNcFzml8wOxZnHCQbVzpATtCxXtvnI4o3OhdS5yhRUpPvsDUSlekSWE86KViOhPTTJsJOzvtHPK/JEn3Vc/LW",
  "E0h4ekgNG/U6ICKQKGZDWRiaxrf1TCGZs4E80gmGQD5fUiieyv5HqbOyTspywFtDlhdcJ264igkowHqjSMl1lKlVs1EW",
  "oZmlJTs0e0EMQjpFhCswQyDueF3NB7X5x6qn2Fimk5NB172RYdw7traT4rBcKtSiPbjraTnFx630N6ed6v3cY/8BYsRt",
  "bUa+BTqVWjYPmZ/f6UIsHKZhKnQc4B3AANZQkmpbx97MIMogLXyS3TcWTjgeDTDZSU3tfjAL6WU2o8lCQrCaN8yxJQvt",
  "uAyLy0h3N6Q8n7UGeowYeYac+bLpoM4LzHjD74WUMdy30iEEG58zA3QHLFvk6jM26Bl7bdOa/WGxQQRpJtrsBgUodfis",
  "Zu8QzoiyoPuRalP6ykZd12nzDZGkYQ5F4SY098qWZ+UvTHEbt8/LM1LctvH0YDTaZR1KEtLxeA0KYokZ11cvQaWPbz/A",
  "pCTfenqRLfNBUoRM4+nEqHxyob1v0MM2NvPyCS9feL3Yhbu95bUZJuRHGCN1oMtkuDILNK/8KY8OYH/9wjDwfk+YckjB",
  "nd157sUtADhXttS+/WqSlNTfzpCCpPovp0h1qr+fIiVC/TcTpCRS/qUEKWDSH0mOgmixmLSfz4qyzGo1TQ0K+adTojiC",
  "rId02SEP4YzKWKGylPovk548iLW353sEXS43zMip3hOdCoq3RKeVWYHP8cMsJ1N3e89zgmkfQG+vaU6gqSCwspwCaBWl",
  "xgr2TkzsvhrmNAA/ndgEWgf6Z17jPAMC3YDUaSCpP7ba8nhmn2UF+6FlvxIlcxF1eeIADbAxnrKYcOH+XBoT8t6nkSXE",
  "IkfCFdwpWxaYqynnRwYTCujFZRMyGJ0pK5aw1LGZsX+VnQSZQ8CK3phuRacC0Q6WAzeTazNhty8pSVgcFKR/koZkEW45",
  "fjH9SNpb7lEZlkfZh2ccVcJVYDzbKBQ6Y+MK8v14SyuKk6sTevxBhlE2FxUGiBRXOOnG4XhNOcLGk4W2L0lHnrSR+PhB",
  "wtHg/scTjiA5kK+ksvaWobjIYingAjUnNgNV+STlyFwljq5eJmkTKVnGUfRBYlvFMKg0U5KvMo8qpGWZRwG5bIvv4OHy",
  "ZUIASgrIYAwsdCYfHUusCmHGt/QjEUzG0HShaaYqJov3jKOdyp/IOEodoyzbqLzkGgXPM4o0bIVhmX6AXjONxNOMOsLc",
  "FOj4LMsIcn7NMtpJhi2KeedbctFB3W1Srj+RW1SpYwFWT+LdPcHI9j7uOUbg4/spRonT9pxiBBOOKJoL/SXFKCH56i3F",
  "KP7h9CK1gDLLPaDc4eT04At8Bbt9GzXOF0k2R9j9mksYCgusf/YHkYAy9INk+42UIXsblkfSUKZ4yrfShpSvlTY056nY",
  "bynxYB009L+TRqTG8Xb5bZ8h2HPGIafbYuf9IG2w5tNH1Xlbmi70wKG8KJpOi2kGAxBMyIZqJTsXdy9yLG8jCaPRjBTt",
  "YyoFHdjISsnFJHS0GcSH/G8Tn/4DQuUUbQ=="]

def characterTable (i : Nat) : List String := [characterTables.getD i ""]


/-! ### Identifier characters -/

/-- The characters outside the first 128 that may start an identifier. -/
def identStartTable : Ranges := Ranges.ofLines (characterTable 3)

/-- The characters outside the first 128 that may follow in an identifier. -/
def identContinueTable : Ranges := Ranges.ofLines (characterTable 4)

def isIdentStart (c : Char) : Bool :=
  if c.toNat < 128 then c.isAlpha || c = '_' else identStartTable.contains c.toNat

def isIdentContinue (c : Char) : Bool :=
  if c.toNat < 128 then c.isAlphanum || c = '_' else identContinueTable.contains c.toNat

def isIdentifier : List Char → Bool
  | [] => false
  | c :: cs => isIdentStart c && cs.all isIdentContinue


/-! ### Printable characters -/

/-- The printable characters outside the first 128. -/
def printableTable : Ranges := Ranges.ofLines (characterTable 11)

def isPrintable (c : Char) : Bool :=
  if c.toNat < 128 then 0x20 ≤ c.toNat && c.toNat < 0x7f
  else printableTable.contains c.toNat


/-! ### Decimal digits -/

/-- The zeros of all scripts. -/
def zeroLines : List String := [
  "30 660 6f0 7c0 966 9e6 a66 ae6 b66 be6 c66 ce6 d66 de6 e50 ed0 f20 1040 1090 17e0 1810 1946 19d0",
  "1a80 1a90 1b50 1bb0 1c40 1c50 a620 a8d0 a900 a9d0 a9f0 aa50 abf0 ff10 104a0 10d30 11066 110f0 11136",
  "111d0 112f0 11450 114d0 11650 116c0 11730 118e0 11950 11c50 11d50 11da0 16a60 16ac0 16b50 1d7ce",
  "1d7d8 1d7e2 1d7ec 1d7f6 1e140 1e2f0 1e950 1fbf0"]

def zeros : List Nat := (tableWords zeroLines).map hexNat

def decimalValue? (c : Char) : Option Nat :=
  if c.toNat < 128 then if c.isDigit then some (c.toNat - 48) else none
  else (zeros.find? fun z => z ≤ c.toNat && c.toNat < z + 10).map (c.toNat - ·)

def isDecimal (c : Char) : Bool := (decimalValue? c).isSome

end CodeAtlas.Text
